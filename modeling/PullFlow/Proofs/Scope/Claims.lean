import PullFlow.Proofs.Scope.Search
import PullFlow.Proofs.Text.Pieces

/-!
The names that flows claim in the root of a tree, each for a new scope of its own. A name with points
is claimed in the scope that its first part leads to, which may be that of a flow before it. As long
as no claim is on the way to a later one, all names are claimed exactly if they lead to slots that
were free before any of them, and to different ones.
-/

namespace PullFlow.Scope.Store

/-- A new scope for a flow, which knows the root as `global`. -/
def addHome (st : Store) (root : ScopeId) : Store :=
  (st.addChild root).1.put st.nodes.length "global" (.scope root)

/-- Claims the name of a flow in the root, for a new scope. -/
def claimName (root : ScopeId) (st : Store) (name : String) : Except Error Store :=
  (st.addHome root).set root name (.scope st.nodes.length) true

/-- Claims the names of flows one after the other. -/
def claimNames (root : ScopeId) (names : List String) (st : Store) : Except Error Store :=
  names.foldlM (claimName root) st

theorem path_global : path "global" = ["global"] := by
  decide +kernel

theorem entry?_fresh (st : Store) (parent : ScopeId) (name : String) :
    Store.entry? (st.addChild parent).1 st.nodes.length name = none := by
  rw [Store.entry?, entries]
  simp [addChild, Fields.get?]

/-- The root is claimed as `global` in a new scope. -/
theorem set_global (st : Store) (root : ScopeId) :
    (st.addChild root).1.set st.nodes.length "global" (.scope root) true =
      .ok (st.addHome root) := by
  simp [set, claim, path_global, owner, entry?_fresh, addHome, bind, Except.bind, pure, Except.pure]

theorem mem_addHome {st : Store} {s root : ScopeId} (h : s ∈ st) : s ∈ st.addHome root :=
  (mem_put _ _ _ _ _).mpr (mem_addChild h)

theorem home_mem (st : Store) (root : ScopeId) : st.nodes.length ∈ st.addHome root :=
  (mem_put _ _ _ _ _).mpr (mem_addChild_self st root)

theorem Grown.addHome {st : Store} {root : ScopeId} (h : Grown st) (hroot : root ∈ st) :
    Grown (st.addHome root) := by
  exact (h.child hroot).set (mem_addChild_self st root)
    (show Store.Sound _ (.scope root) from mem_addChild hroot) (set_global st root)

theorem Grown.claimName {st st' : Store} {root : ScopeId} {name : String} (h : Grown st)
    (hroot : root ∈ st) (hclaim : st.claimName root name = .ok st') : Grown st' ∧ root ∈ st' := by
  have hhome := h.addHome hroot
  refine ⟨hhome.set (mem_addHome hroot) (show Store.Sound _ (.scope _) from home_mem st root) hclaim, ?_⟩
  obtain ⟨o, n, _, _, rfl⟩ := set_eq_ok hclaim
  exact (mem_put _ _ _ _ _).mpr (mem_addHome hroot)

/-! Homes and claims, as lookups see them. -/

section Homes

variable {st st' st'' : Store} {root s o : ScopeId} {n name : String} {names : List String}

theorem length_addHome (st : Store) (root : ScopeId) :
    (st.addHome root).nodes.length = st.nodes.length + 1 := by
  simp [addHome, put, update, addChild]

theorem parent?_addHome (st : Store) (root s : ScopeId) :
    (st.addHome root).parent? s = if s = st.nodes.length then some root else st.parent? s := by
  rw [addHome, parent?_put]
  simp only [parent?, addChild, nodes_append]
  split <;> rfl

theorem entry?_addHome (st : Store) (root s : ScopeId) (key : String) :
    Store.entry? (st.addHome root) s key =
      if s = st.nodes.length ∧ key = "global" then some (.scope root) else st.entry? s key := by
  have hhome : st.nodes.length ∈ (st.addChild root).1 := by
    change st.nodes.length < (st.nodes ++ [_]).length
    simp
  rw [addHome, entry?_put hhome, addChild, entry?_append rfl]

theorem owner_getLast? {o : ScopeId} (h : st.owner s names = .ok (o, n)) :
    names.getLast? = some n := by
  induction names generalizing s with
  | nil => cases h
  | cons first rest ih =>
      cases rest with
      | nil =>
          cases h
          rfl
      | cons next rest =>
          simp only [owner] at h
          split at h
          · rw [List.getLast?_cons_cons]
            exact ih h
          · cases h

/-- Changes elsewhere leave what a lookup upwards finds. -/
theorem findHead?_congr (h : st.Formed) (h' : st'.Formed)
    (hparents : ∀ s ∈ st, st'.parent? s = st.parent? s)
    (hentries : ∀ s ∈ st, st'.entry? s name = st.entry? s name) (hs : s ∈ st) :
    st'.findHead? s name = st.findHead? s name := by
  induction s using Nat.strongRecOn with
  | ind s ih =>
      rw [h.findHead?_eq, h'.findHead?_eq, hentries s hs, hparents s hs]
      cases st.entry? s name with
      | some e => rfl
      | none =>
          cases hparent : st.parent? s with
          | none => rfl
          | some p =>
              have hlt := h.parents s p hparent
              exact ih p hlt (Nat.lt_trans hlt hs)

/-- Changes under names that a key does not go through leave its owner. -/
theorem owner_congr (h : st.Formed) (h' : st'.Formed)
    (hparents : ∀ s ∈ st, st'.parent? s = st.parent? s)
    (hentries : ∀ s ∈ st, ∀ name ∈ names.dropLast, st'.entry? s name = st.entry? s name)
    (hs : s ∈ st) : st'.owner s names = st.owner s names := by
  induction names generalizing s with
  | nil => rfl
  | cons first rest ih =>
      cases rest with
      | nil => rfl
      | cons next rest =>
          rw [List.dropLast_cons_cons] at hentries
          have hhead : st'.findHead? s first = st.findHead? s first :=
            findHead?_congr h h' hparents (fun s hs => hentries s hs _ List.mem_cons_self) hs
          simp only [owner, hhead]
          cases hfound : st.findHead? s first with
          | none => rfl
          | some e =>
              cases e with
              | value v => rfl
              | scope t =>
                  exact ih (fun s hs name hname => hentries s hs _ (List.mem_cons_of_mem _ hname))
                    (h.findHead hfound)

theorem claimName_eq_ok : st.claimName root name = .ok st' ↔
    ∃ o n, (st.addHome root).owner root (path name) = .ok (o, n) ∧
      Store.entry? (st.addHome root) o n = none ∧
      st' = (st.addHome root).put o n (.scope st.nodes.length) := by
  simp only [claimName, set, claim, if_pos, bind]
  cases howner : (st.addHome root).owner root (path name) with
  | error e => simp [Except.bind]
  | ok slot =>
      obtain ⟨o, n⟩ := slot
      simp only [Except.bind, pure, Except.pure]
      cases hentry : Store.entry? (st.addHome root) o n with
      | some e => simp [throw, throwThe, MonadExceptOf.throw, hentry]
      | none => simp [hentry, eq_comm]

theorem length_claimName (h : st.claimName root name = .ok st') :
    st'.nodes.length = st.nodes.length + 1 := by
  obtain ⟨o, n, _, _, rfl⟩ := claimName_eq_ok.mp h
  rw [put, update, List.length_modify, length_addHome]

/-- The claim of one name is not on the way to another. -/
def Clear (a b : String) : Prop := ∀ n, (path a).getLast? = some n → n ∉ (path b).dropLast

/-- A tree and the one in which flows have homes under their names: nothing else is new. -/
structure Claimed (st : Store) (root : ScopeId) (names : List String) (st' : Store) : Prop where
  grown : Grown st'
  mem : root ∈ st'
  length : st'.nodes.length = st.nodes.length + names.length
  parents : ∀ s ∈ st, st'.parent? s = st.parent? s
  homes : ∀ i < names.length, st'.parent? (st.nodes.length + i) = some root
  entries : ∀ s key e, st'.entry? s key = some e ↔ st.entry? s key = some e ∨
    (∃ i name, names[i]? = some name ∧ st.owner root (path name) = .ok (s, key) ∧
      e = .scope (st.nodes.length + i)) ∨
    ∃ i < names.length, s = st.nodes.length + i ∧ key = "global" ∧ e = .scope root

namespace Claimed

theorem nil (hst : Grown st) (hroot : root ∈ st) : Claimed st root [] st := by
  refine ⟨hst, hroot, rfl, fun _ _ => rfl, fun i hi => absurd hi (Nat.not_lt_zero i), ?_⟩
  intro s key e
  simp

theorem ne_length (h : Claimed st root names st') (hs : s ∈ st) : s ≠ st'.nodes.length :=
  Nat.ne_of_lt (Nat.lt_of_lt_of_le hs (h.length ▸ Nat.le_add_right ..))

/-- Nothing is new under a name that ends no claimed name. -/
theorem entry?_eq (h : Claimed st root names st') (hs : s ∈ st) {key : String}
    (hkey : ∀ a ∈ names, (path a).getLast? ≠ some key) : st'.entry? s key = st.entry? s key := by
  refine Option.ext fun e => ?_
  rw [h.entries]
  constructor
  · rintro (he | ⟨i, a, ha, howner, _⟩ | ⟨i, _, rfl, _⟩)
    · exact he
    · exact absurd (owner_getLast? howner) (hkey a (List.mem_of_getElem? ha))
    · exact absurd hs (Nat.not_lt.mpr (Nat.le_add_right ..))
  · exact .inl

/-- What a name leads to is as it was before the claims, if none of them is on its way. -/
theorem owner_addHome (h : Claimed st root names st') (hst : Grown st) (hroot : root ∈ st)
    (hclear : ∀ a ∈ names, Clear a name) :
    (st'.addHome root).owner root (path name) = st.owner root (path name) := by
  refine owner_congr hst.formed (h.grown.addHome h.mem).formed (fun s hs => ?_)
    (fun s hs key hkey => ?_) hroot
  · rw [parent?_addHome, if_neg (h.ne_length hs), h.parents s hs]
  · rw [entry?_addHome, if_neg fun hhome => h.ne_length hs hhome.1]
    exact h.entry?_eq hs fun a ha hlast => hclear a ha key hlast hkey

/-- One more name. -/
theorem snoc (h : Claimed st root names st') (hst : Grown st) (hroot : root ∈ st)
    (hclear : ∀ a ∈ names, Clear a name) (hclaim : st'.claimName root name = .ok st'') :
    Claimed st root (names ++ [name]) st'' := by
  obtain ⟨hgrown, hmem⟩ := h.grown.claimName h.mem hclaim
  obtain ⟨o, n, howner, hfree, rfl⟩ := claimName_eq_ok.mp hclaim
  rw [h.owner_addHome hst hroot hclear] at howner
  have ho : o ∈ st := hst.formed.owner hroot howner
  have ho' : o ∈ st'.addHome root := by
    change o < (st'.addHome root).nodes.length
    rw [length_addHome, h.length]
    exact Nat.lt_succ_of_lt (Nat.lt_add_right _ ho)
  constructor
  · exact hgrown
  · exact hmem
  · rw [put, update, List.length_modify, length_addHome, h.length, List.length_append]
    rfl
  · intro s hs
    rw [parent?_put, parent?_addHome, if_neg (h.ne_length hs), h.parents s hs]
  · intro i hi
    rw [List.length_append, List.length_singleton] at hi
    rw [parent?_put, parent?_addHome, h.length]
    rcases Nat.lt_succ_iff_lt_or_eq.mp hi with hi | rfl
    · rw [h.homes i hi]
      exact ite_self _
    · exact if_pos rfl
  · intro s key e
    rw [entry?_put ho', entry?_addHome, h.length]
    have hnames (i : Nat) (a : String) : (names ++ [name])[i]? = some a ↔
        names[i]? = some a ∨ i = names.length ∧ a = name := by
      rcases Nat.lt_trichotomy i names.length with hi | rfl | hi
      · rw [List.getElem?_append_left hi]
        simp [Nat.ne_of_lt hi]
      · simp [eq_comm]
      · rw [List.getElem?_eq_none (by simp; omega), List.getElem?_eq_none (by omega)]
        simp [Nat.ne_of_gt hi]
    rw [entry?_addHome, h.length] at hfree
    by_cases hslot : s = o ∧ key = n
    · obtain ⟨rfl, rfl⟩ := hslot
      rw [if_pos ⟨rfl, rfl⟩]
      have hnone : st'.entry? s key = none := by
        split at hfree
        · cases hfree
        · exact hfree
      constructor
      · rintro ⟨⟩
        exact .inr (.inl ⟨names.length, name, (hnames _ _).mpr (.inr ⟨rfl, rfl⟩), howner, rfl⟩)
      · rintro (he | ⟨i, a, ha, howner', rfl⟩ | ⟨i, _, rfl, _⟩)
        · rw [(h.entries s key e).mpr (.inl he)] at hnone
          cases hnone
        · obtain ha | ⟨rfl, rfl⟩ := (hnames i a).mp ha
          · rw [(h.entries s key _).mpr (.inr (.inl ⟨i, a, ha, howner', rfl⟩))] at hnone
            cases hnone
          · rfl
        · exact absurd ho (Nat.not_lt.mpr (Nat.le_add_right ..))
    · rw [if_neg hslot]
      have hother (i : Nat) (a : String) :
          ((names ++ [name])[i]? = some a ∧ st.owner root (path a) = .ok (s, key)) ↔
            names[i]? = some a ∧ st.owner root (path a) = .ok (s, key) := by
        rw [hnames]
        constructor
        · rintro ⟨ha | ⟨rfl, rfl⟩, howner'⟩
          · exact ⟨ha, howner'⟩
          · rw [howner] at howner'
            cases howner'
            exact absurd ⟨rfl, rfl⟩ hslot
        · rintro ⟨ha, howner'⟩
          exact ⟨.inl ha, howner'⟩
      have hslots : (∃ i a, (names ++ [name])[i]? = some a ∧
          st.owner root (path a) = .ok (s, key) ∧ e = .scope (st.nodes.length + i)) ↔
          ∃ i a, names[i]? = some a ∧ st.owner root (path a) = .ok (s, key) ∧
            e = .scope (st.nodes.length + i) := by
        simp only [← and_assoc, hother]
      have hhomes : (∃ i < (names ++ [name]).length, s = st.nodes.length + i ∧ key = "global" ∧
          e = .scope root) ↔ (∃ i < names.length, s = st.nodes.length + i ∧ key = "global" ∧
            e = .scope root) ∨ s = st.nodes.length + names.length ∧ key = "global" ∧
              e = .scope root := by
        rw [List.length_append, List.length_singleton]
        constructor
        · rintro ⟨i, hi, heq⟩
          rcases Nat.lt_succ_iff_lt_or_eq.mp hi with hi | rfl
          · exact .inl ⟨i, hi, heq⟩
          · exact .inr heq
        · rintro (⟨i, hi, heq⟩ | heq)
          · exact ⟨i, Nat.lt_succ_of_lt hi, heq⟩
          · exact ⟨names.length, Nat.lt_succ_self _, heq⟩
      rw [hslots, hhomes]
      split
      · next hhome =>
        obtain ⟨rfl, rfl⟩ := hhome
        have hnew : st'.entry? (st.nodes.length + names.length) "global" = none := by
          rw [Store.entry?, Store.entries, List.getElem?_eq_none (Nat.le_of_eq h.length)]
          rfl
        constructor
        · rintro ⟨⟩
          exact .inr (.inr (.inr ⟨rfl, rfl, rfl⟩))
        · rintro (he | hslot | hhome | ⟨_, _, rfl⟩)
          · rw [(h.entries _ _ e).mpr (.inl he)] at hnew
            cases hnew
          · rw [(h.entries _ _ e).mpr (.inr (.inl hslot))] at hnew
            cases hnew
          · rw [(h.entries _ _ e).mpr (.inr (.inr hhome))] at hnew
            cases hnew
          · rfl
      · next hhome =>
        rw [h.entries]
        constructor
        · rintro (he | hslot | hold)
          · exact .inl he
          · exact .inr (.inl hslot)
          · exact .inr (.inr (.inl hold))
        · rintro (he | hslot | hold | ⟨hs, hkey, _⟩)
          · exact .inl he
          · exact .inr (.inl hslot)
          · exact .inr (.inr hold)
          · exact absurd ⟨hs, hkey⟩ hhome

end Claimed

theorem claimNames_snoc : claimNames root (names ++ [name]) st = .ok st'' ↔
    ∃ st', claimNames root names st = .ok st' ∧ st'.claimName root name = .ok st'' := by
  simp only [claimNames, List.foldlM_append, List.foldlM_cons, List.foldlM_nil, bind, pure]
  cases List.foldlM (claimName root) st names with
  | error e => simp [Except.bind]
  | ok st' => cases hclaim : claimName root st' name <;> simp [Except.bind, Except.pure, hclaim]

theorem pairwise_snoc {α : Type} {R : α → α → Prop} {items : List α} {a : α} :
    (items ++ [a]).Pairwise R ↔ items.Pairwise R ∧ ∀ b ∈ items, R b a := by
  simp [List.pairwise_append]

theorem claimed_of_claimNames (hst : Grown st) (hroot : root ∈ st) (hclear : names.Pairwise Clear)
    (h : claimNames root names st = .ok st') : Claimed st root names st' := by
  induction names using List.reverseRecOn generalizing st' with
  | nil =>
      cases h
      exact .nil hst hroot
  | append_singleton names name ih =>
      obtain ⟨hclear, hname⟩ := pairwise_snoc.mp hclear
      obtain ⟨between, hnames, hclaim⟩ := claimNames_snoc.mp h
      exact (ih hclear hnames).snoc hst hroot hname hclaim

/-- A name can be claimed after others if its slot was free before them and is none of theirs. -/
theorem Claimed.claimName_iff (h : Claimed st root names st') (hst : Grown st) (hroot : root ∈ st)
    (hclear : ∀ a ∈ names, Clear a name) : (∃ st'', st'.claimName root name = .ok st'') ↔
      ∃ o n, st.owner root (path name) = .ok (o, n) ∧ st.entry? o n = none ∧
        ∀ a ∈ names, st.owner root (path a) ≠ .ok (o, n) := by
  have howner := h.owner_addHome hst hroot hclear
  constructor
  · rintro ⟨st'', hclaim⟩
    obtain ⟨o, n, ho, hfree, _⟩ := claimName_eq_ok.mp hclaim
    rw [howner] at ho
    rw [entry?_addHome, if_neg fun hhome => h.ne_length (hst.formed.owner hroot ho) hhome.1] at hfree
    refine ⟨o, n, ho, ?_, fun a ha ho' => ?_⟩
    · cases hentry : st.entry? o n with
      | none => rfl
      | some e =>
          rw [(h.entries o n e).mpr (.inl hentry)] at hfree
          cases hfree
    · obtain ⟨i, hi⟩ := List.getElem?_of_mem ha
      rw [(h.entries o n _).mpr (.inr (.inl ⟨i, a, hi, ho', rfl⟩))] at hfree
      cases hfree
  · rintro ⟨o, n, ho, hfree, hothers⟩
    have hmem : o ∈ st := hst.formed.owner hroot ho
    refine ⟨_, claimName_eq_ok.mpr ⟨o, n, howner.trans ho, ?_, rfl⟩⟩
    rw [entry?_addHome, if_neg fun hhome => h.ne_length hmem hhome.1]
    refine Option.eq_none_iff_forall_ne_some.mpr fun e he => ?_
    obtain he | ⟨i, a, ha, ho', _⟩ | ⟨i, _, rfl, _⟩ := (h.entries o n e).mp he
    · rw [hfree] at he
      cases he
    · exact hothers a (List.mem_of_getElem? ha) ho'
    · exact absurd hmem (Nat.not_lt.mpr (Nat.le_add_right ..))

/-- Names can be claimed one after the other if they lead to slots that are free and apart. -/
theorem claimNames_iff (hst : Grown st) (hroot : root ∈ st) (hclear : names.Pairwise Clear) :
    (∃ st', claimNames root names st = .ok st') ↔
      (∀ name ∈ names, ∃ o n, st.owner root (path name) = .ok (o, n) ∧ st.entry? o n = none) ∧
        names.Pairwise fun a b => st.owner root (path a) ≠ st.owner root (path b) := by
  induction names using List.reverseRecOn with
  | nil => exact ⟨fun _ => ⟨List.forall_mem_nil _, .nil⟩, fun _ => ⟨st, rfl⟩⟩
  | append_singleton names name ih =>
      obtain ⟨hclear, hname⟩ := pairwise_snoc.mp hclear
      rw [pairwise_snoc, List.forall_mem_append, List.forall_mem_singleton]
      constructor
      · rintro ⟨st'', h⟩
        obtain ⟨st', hnames, hclaim⟩ := claimNames_snoc.mp h
        obtain ⟨hfree, hapart⟩ := (ih hclear).mp ⟨st', hnames⟩
        obtain ⟨o, n, ho, hslot, hothers⟩ :=
          ((claimed_of_claimNames hst hroot hclear hnames).claimName_iff hst hroot hname).mp
            ⟨st'', hclaim⟩
        refine ⟨⟨hfree, o, n, ho, hslot⟩, hapart, fun a ha hsame => ?_⟩
        exact hothers a ha (hsame.trans ho)
      · rintro ⟨⟨hfree, o, n, ho, hslot⟩, hapart, hothers⟩
        obtain ⟨st', hnames⟩ := (ih hclear).mpr ⟨hfree, hapart⟩
        obtain ⟨st'', hclaim⟩ :=
          ((claimed_of_claimNames hst hroot hclear hnames).claimName_iff hst hroot hname).mpr
            ⟨o, n, ho, hslot, fun a ha hsame => hothers a ha (hsame.trans ho.symm)⟩
        exact ⟨st'', claimNames_snoc.mpr ⟨st', hnames, hclaim⟩⟩

end Homes

/-! Names without a point. -/

section Plain

/-- A name or key without a point. -/
def Plain (key : String) : Prop := (path key).dropLast = []

instance (key : String) : Decidable (Plain key) :=
  inferInstanceAs (Decidable ((path key).dropLast = []))

theorem path_ne_nil (key : String) : path key ≠ [] := by
  simpa [path, Text.split] using Text.pieces_ne_nil _ _

theorem path_of_plain {key : String} (h : Plain key) : path key = [key] := by
  have hjoin : Text.join "." (path key) = key := Text.join_split "." key
  cases hpath : path key with
  | nil => exact absurd hpath (path_ne_nil key)
  | cons x rest =>
      cases rest with
      | nil =>
          rw [hpath, Text.join, String.intercalate_singleton] at hjoin
          rw [hjoin]
      | cons next rest =>
          rw [Plain, hpath] at h
          cases h

theorem plain_iff {key : String} : Plain key ↔ '.' ∉ key.toList := by
  rw [← Text.pieces_char_eq_singleton_iff]
  constructor
  · intro h
    obtain ⟨piece, hpieces, rfl⟩ := List.map_eq_singleton_iff.mp (path_of_plain h)
    change Text.pieces ['.'] (String.ofList piece).toList = [piece] at hpieces
    rwa [String.toList_ofList] at hpieces ⊢
  · intro h
    have hpath : path key = [String.ofList key.toList] := congrArg (List.map String.ofList) h
    rw [Plain, hpath]
    rfl

theorem clear_of_plain {a b : String} (h : Plain b) : Clear a b := by
  intro n _ hn
  rw [h] at hn
  cases hn

/-- Names without a point can be claimed if they are different and new. -/
theorem claimNames_plain {st : Store} {root : ScopeId} {names : List String} (hst : Grown st)
    (hroot : root ∈ st) (hplain : ∀ name ∈ names, Plain name) (hnodup : names.Nodup) :
    (∃ st', claimNames root names st = .ok st') ↔ ∀ name ∈ names, st.entry? root name = none := by
  have howner {name : String} (hname : name ∈ names) :
      st.owner root (path name) = .ok (root, name) := by
    rw [path_of_plain (hplain name hname), owner]
  rw [claimNames_iff hst hroot (List.pairwise_of_forall_mem_list fun _ _ _ hb =>
    clear_of_plain (hplain _ hb))]
  constructor
  · rintro ⟨hfree, _⟩ name hname
    obtain ⟨o, n, ho, hslot⟩ := hfree name hname
    rw [howner hname] at ho
    cases ho
    exact hslot
  · refine fun hfree => ⟨fun name hname => ⟨root, name, howner hname, hfree name hname⟩, ?_⟩
    refine hnodup.imp_of_mem fun {a b} ha hb hne hsame => hne ?_
    rw [howner ha, howner hb] at hsame
    cases hsame
    rfl

end Plain

end PullFlow.Scope.Store
