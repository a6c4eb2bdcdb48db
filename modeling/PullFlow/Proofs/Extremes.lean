import PullFlow.Proofs.Decimal.Nearest
import PullFlow.Operator.ListFunction

/-!
The largest and the smallest item of a list. Of integers or texts it is the first one that no other
exceeds, where integers are compared as floats; so the answer is exact if different integers of the
list have different floats. A list of several items that are neither all integers nor all texts is
an error, wherever the odd item stands.
-/

namespace PullFlow.Operator.ListFunction

open Decimal

variable {f : ListFunction} {name : String} {keep : Ordering}

theorem compare?_int (a b : Int) :
    compare? (.int a) (.int b) = some (compare (rank a) (rank b)) := by
  obtain ⟨hlt, heq⟩ := toFloat_compare a b
  obtain ⟨hgt, -⟩ := toFloat_compare b a
  simp only [Value.int, compare?, hlt, hgt, heq, decide_eq_true_iff]
  rcases lt_trichotomy (rank a) (rank b) with h | h | h
  · rw [if_pos h, compare_lt_iff_lt.mpr h]
  · rw [if_neg (by omega), if_neg (by omega), if_pos h, compare_eq_iff_eq.mpr h]
  · rw [if_neg (by omega), if_pos h, compare_gt_iff_gt.mpr h]

theorem compare?_text (s t : String) : compare? (.text s) (.text t) = some (compare s t) := rfl

/-! ### The item that is kept -/

section Kept

variable {α β : Type} [LinearOrder β]

/-- What beats an item beats also those that do not. -/
theorem beats_of_beats {a b c : β} (hkeep : keep ≠ .eq) (hab : compare a b = keep)
    (hcb : compare c b ≠ keep) : compare a c = keep := by
  cases keep with
  | eq => exact absurd rfl hkeep
  | lt =>
      rw [compare_lt_iff_lt] at hab
      rw [Ne, compare_lt_iff_lt, not_lt] at hcb
      exact compare_lt_iff_lt.mpr (hab.trans_le hcb)
  | gt =>
      rw [compare_gt_iff_gt] at hab
      rw [Ne, compare_gt_iff_gt, not_lt] at hcb
      exact compare_gt_iff_gt.mpr (hcb.trans_lt hab)

theorem not_beats_of_beats {a b : β} (hkeep : keep ≠ .eq) (h : compare a b = keep) :
    compare b a ≠ keep := by
  cases keep with
  | eq => exact absurd rfl hkeep
  | lt => exact fun h' => (compare_lt_iff_lt.mp h).asymm (compare_lt_iff_lt.mp h')
  | gt => exact fun h' => (compare_gt_iff_gt.mp h).asymm (compare_gt_iff_gt.mp h')

/-- The first item that none beats is kept, whatever the items are compared by. -/
theorem extreme_map {make : α → Value} {key : α → β} (hkeep : keep ≠ .eq)
    (hkey : ∀ a b, compare? (make a) (make b) = some (compare (key a) (key b)))
    (best : α) (items : List α) :
    ∃ before a after, best :: items = before ++ a :: after ∧
      extreme name keep (make best) (items.map make) = .ok (make a) ∧
      (∀ b ∈ before, compare (key a) (key b) = keep) ∧
      ∀ b ∈ after, compare (key b) (key a) ≠ keep := by
  induction items generalizing best with
  | nil => exact ⟨[], best, [], rfl, rfl, by simp, by simp⟩
  | cons next rest ih =>
      rw [List.map_cons, extreme, hkey]
      dsimp only
      split
      · next hbeats =>
        obtain ⟨before, a, after, hitems, hkept, hbefore, hafter⟩ := ih next
        refine ⟨best :: before, a, after, by rw [hitems]; rfl, hkept, ?_, hafter⟩
        rintro b (_ | ⟨_, hb⟩)
        · cases before with
          | nil =>
              cases hitems
              exact hbeats
          | cons b rest =>
              cases hitems
              exact beats_of_beats hkeep (hbefore _ List.mem_cons_self)
                (not_beats_of_beats hkeep hbeats)
        · exact hbefore b hb
      · next hstays =>
        obtain ⟨before, a, after, hitems, hkept, hbefore, hafter⟩ := ih best
        cases before with
        | nil =>
            cases hitems
            refine ⟨[], best, next :: rest, rfl, hkept, by simp, ?_⟩
            rintro b (_ | ⟨_, hb⟩)
            · exact hstays
            · exact hafter b hb
        | cons b before =>
            cases hitems
            refine ⟨best :: next :: before, a, after, rfl, hkept, ?_, hafter⟩
            rintro b (_ | ⟨_, _ | ⟨_, hb⟩⟩)
            · exact hbefore _ List.mem_cons_self
            · exact beats_of_beats hkeep (hbefore _ List.mem_cons_self) hstays
            · exact hbefore b (List.mem_cons_of_mem _ hb)

end Kept

/-! ### Items of different sorts -/

/-- Two integers or two texts. -/
inductive Akin : Value → Value → Prop
  | ints (a b : Int) : Akin (.int a) (.int b)
  | texts (s t : String) : Akin (.text s) (.text t)

theorem Akin.trans {u v w : Value} (huv : Akin u v) (hvw : Akin v w) : Akin u w := by
  cases huv <;> cases hvw
  · exact .ints _ _
  · exact .texts _ _

/-- Anything but a number that is no integer. -/
def Floatless (v : Value) : Prop := ∀ x, v ≠ .number (.float x)

/-- Only integers compare with integers, and only texts with texts. -/
theorem compare?_eq_none {u v : Value} (hu : Floatless u) (hv : Floatless v) (h : ¬ Akin u v) :
    compare? u v = none := by
  unfold compare?
  split
  · next a b =>
    cases a with
    | float x => exact absurd rfl (hu x)
    | int a =>
      cases b with
      | float x => exact absurd rfl (hv x)
      | int b => exact absurd (.ints a b) h
  · next s t => exact absurd (.texts s t) h
  · rfl

/-- An item of another sort than the first is an error, wherever it stands. -/
theorem extreme_eq_error {best : Value} {items : List Value} (hbest : Floatless best)
    (hitems : ∀ v ∈ items, Floatless v) (h : ∃ v ∈ items, ¬ Akin v best) :
    ∃ m, extreme name keep best items = .error (.evaluation (component name) m) := by
  induction items generalizing best with
  | nil => simp at h
  | cons next rest ih =>
      have hnext := hitems _ List.mem_cons_self
      have hrest := fun v hv => hitems v (List.mem_cons_of_mem next hv)
      rw [extreme]
      cases hcompared : compare? next best with
      | none => exact ⟨_, rfl⟩
      | some o =>
          have hakin : Akin next best := by
            by_contra hodd
            rw [compare?_eq_none hnext hbest hodd] at hcompared
            cases hcompared
          obtain ⟨v, hv, hodd⟩ : ∃ v ∈ rest, ¬ Akin v best := by
            obtain ⟨v, _ | ⟨_, hv⟩, hodd⟩ := h
            · exact absurd hakin hodd
            · exact ⟨v, hv, hodd⟩
          dsimp only
          split
          · exact ih hnext hrest ⟨v, hv, fun hv => hodd (hv.trans hakin)⟩
          · exact ih hbest hrest ⟨v, hv, hodd⟩

/-- Several items of which not all are integers and not all are texts. -/
theorem exists_odd {best : Value} {items : List Value} (hseveral : items ≠ [])
    (hints : ∀ ns : List Int, best :: items ≠ ns.map Value.int)
    (htexts : ∀ ss : List String, best :: items ≠ ss.map Value.text) :
    ∃ v ∈ items, ¬ Akin v best := by
  by_contra hall
  push Not at hall
  obtain ⟨v, hv⟩ := List.exists_mem_of_ne_nil items hseveral
  cases hall v hv with
  | ints _ b =>
      obtain ⟨ns, hns⟩ : items ∈ Set.range (List.map Value.int) := by
        rw [Set.range_list_map]
        intro u hu
        cases hall u hu
        exact ⟨_, rfl⟩
      exact hints (b :: ns) (by rw [List.map_cons, hns])
  | texts _ t =>
      obtain ⟨ss, hss⟩ : items ∈ Set.range (List.map Value.text) := by
        rw [Set.range_list_map]
        intro u hu
        cases hall u hu
        exact ⟨_, rfl⟩
      exact htexts (t :: ss) (by rw [List.map_cons, hss])

/-! ### Largest and smallest items -/

/-- For the largest item, `a` is larger than `b`; for the smallest, smaller. -/
def Exceeds {α : Type} [LT α] : ListFunction → α → α → Prop
  | max, a, b => b < a
  | min, a, b => a < b
  | _, _, _ => False

/-- The first item that no item exceeds, by what the items are compared by. -/
def FirstOf {α β : Type} [LT β] (f : ListFunction) (key : α → β) (items : List α) (a : α) : Prop :=
  ∃ before after, items = before ++ a :: after ∧ (∀ b ∈ items, ¬ f.Exceeds (key b) (key a)) ∧
    ∀ b ∈ before, f.Exceeds (key a) (key b)

/-- Different integers of the list have different floats. -/
def Apart (ns : List Int) : Prop :=
  ∀ a ∈ ns, ∀ b ∈ ns, (Number.int a).toFloat == (Number.int b).toFloat → a = b

/-- Integers of at most 53 places are apart. -/
theorem apart_of_le {ns : List Int} (h : ∀ n ∈ ns, -2 ^ 53 ≤ n ∧ n ≤ 2 ^ 53) : Apart ns := by
  intro a ha b hb heq
  rw [(toFloat_compare a b).2, decide_eq_true_iff] at heq
  rcases lt_trichotomy a b with hlt | hsame | hgt
  · exact absurd heq (rank_lt hlt (h a ha).1 (h b hb).2).ne
  · exact hsame
  · exact absurd heq.symm (rank_lt hgt (h b hb).1 (h a ha).2).ne

theorem Apart.lt_iff {ns : List Int} {a b : Int} (h : Apart ns) (ha : a ∈ ns) (hb : b ∈ ns) :
    rank a < rank b ↔ a < b := by
  constructor
  · intro hrank
    by_contra hle
    exact absurd (rank_mono (not_lt.mp hle)) (not_le.mpr hrank)
  · intro hlt
    refine (rank_mono hlt.le).lt_of_ne fun heq => hlt.ne (h a ha b hb ?_)
    rw [(toFloat_compare a b).2, decide_eq_true_iff]
    exact heq

theorem FirstOf.congr {α β γ : Type} [LT β] [LT γ] {key : α → β} {other : α → γ} {items : List α}
    {a : α} (h : FirstOf f key items a)
    (hsame : ∀ a ∈ items, ∀ b ∈ items, (key a < key b ↔ other a < other b)) :
    FirstOf f other items a := by
  obtain ⟨before, after, rfl, hnone, hbefore⟩ := h
  have ha : a ∈ before ++ a :: after := by simp
  have hexceeds : ∀ b ∈ before ++ a :: after, ∀ c ∈ before ++ a :: after,
      (f.Exceeds (key b) (key c) ↔ f.Exceeds (other b) (other c)) := by
    intro b hb c hc
    cases f with
    | max => exact hsame c hc b hb
    | min => exact hsame b hb c hc
    | _ => exact Iff.rfl
  refine ⟨before, after, rfl, fun b hb => ?_, fun b hb => ?_⟩
  · exact (not_congr (hexceeds b hb a ha)).mp (hnone b hb)
  · exact (hexceeds a ha b (List.mem_append_left _ hb)).mp (hbefore b hb)

/-- How a better item compares. -/
def better : ListFunction → Ordering
  | max => .gt
  | _ => .lt

theorem applyTo_eq (hf : f = max ∨ f = min) (items : List Value) :
    f.applyTo (.list items) = extremeOf f.name f.better items := by
  rcases hf with rfl | rfl <;> rfl

theorem compare_eq_better {β : Type} [LinearOrder β] (hf : f = max ∨ f = min) {a b : β} :
    compare a b = f.better ↔ f.Exceeds a b := by
  rcases hf with rfl | rfl
  · exact compare_gt_iff_gt
  · exact compare_lt_iff_lt

/-- Of items of one sort the first that none exceeds is the result. -/
theorem applyTo_map {α β : Type} [LinearOrder β] (hf : f = max ∨ f = min) {make : α → Value}
    {key : α → β} (hkey : ∀ a b, compare? (make a) (make b) = some (compare (key a) (key b)))
    {items : List α} (hne : items ≠ []) :
    ∃ a, f.applyTo (.list (items.map make)) = .ok (make a) ∧ FirstOf f key items a := by
  obtain ⟨best, rest, rfl⟩ := List.exists_cons_of_ne_nil hne
  have hbetter : f.better ≠ .eq := by rcases hf with rfl | rfl <;> decide
  obtain ⟨before, a, after, hitems, hkept, hbefore, hafter⟩ := extreme_map hbetter hkey best rest
  refine ⟨a, (applyTo_eq hf _).trans hkept, before, after, hitems, fun b hb => ?_, fun b hb => ?_⟩
  · rw [← compare_eq_better hf]
    rw [hitems, List.mem_append, List.mem_cons] at hb
    rcases hb with hb | rfl | hb
    · exact not_beats_of_beats hbetter (hbefore b hb)
    · exact fun h => not_beats_of_beats hbetter h h
    · exact hafter b hb
  · exact (compare_eq_better hf).mp (hbefore b hb)

/-- Of integers the result is the first one whose float no other float exceeds, and thus the first
integer that no other exceeds if floats keep them apart. Of texts it is the first one that no other
exceeds. Several items that are neither all integers nor all texts are an error, and so is an empty
list. -/
theorem extremes_exact (hf : f = max ∨ f = min) :
    (∀ ns : List Int, ns ≠ [] →
      ∃ n, f.applyTo (.list (ns.map .int)) = .ok (.int n) ∧
        FirstOf f (fun n => (Number.int n).toFloat) ns n ∧ (Apart ns → FirstOf f id ns n)) ∧
    (∀ ss : List String, ss ≠ [] →
      ∃ s, f.applyTo (.list (ss.map .text)) = .ok (.text s) ∧ FirstOf f id ss s) ∧
    ∀ items : List Value, (∀ v ∈ items, Floatless v) → items.length ≠ 1 →
      (∀ ns : List Int, ns ≠ [] → items ≠ ns.map .int) →
      (∀ ss : List String, ss ≠ [] → items ≠ ss.map .text) →
      ∃ m, f.applyTo (.list items) = .error (.evaluation (component f.name) m) := by
  refine ⟨fun ns hne => ?_, fun ss hne => ?_, fun items hfloatless hseveral hints htexts => ?_⟩
  · obtain ⟨n, hn, hfirst⟩ := applyTo_map hf compare?_int hne
    exact ⟨n, hn, hfirst.congr fun a _ b _ => (toFloat_compare a b).1.symm,
      fun hapart => hfirst.congr fun a ha b hb => hapart.lt_iff ha hb⟩
  · exact applyTo_map hf compare?_text hne
  · rw [applyTo_eq hf]
    cases items with
    | nil => exact ⟨_, rfl⟩
    | cons best rest =>
        have hrest : rest ≠ [] := by
          rintro rfl
          exact hseveral rfl
        have hne : ∀ {α : Type} {as : List α} {make : α → Value},
            best :: rest = as.map make → as ≠ [] := by
          rintro α as make h rfl
          cases h
        refine extreme_eq_error (hfloatless _ List.mem_cons_self)
          (fun v hv => hfloatless v (List.mem_cons_of_mem _ hv)) (exists_odd hrest ?_ ?_)
        · exact fun ns h => hints ns (hne h) h
        · exact fun ss h => htexts ss (hne h) h

/-- The largest integer and the largest text of a list, and a list with a null at its end. -/
theorem largest_of_lists :
    (∃ n, max.applyTo (.list ([9007199254740991, 9007199254740992, -1].map .int)) = .ok (.int n) ∧
      FirstOf max id [9007199254740991, 9007199254740992, -1] n) ∧
    (∃ s, max.applyTo (.list (["b", "c", "a"].map .text)) = .ok (.text s) ∧
      FirstOf max id ["b", "c", "a"] s) ∧
    ∃ m, max.applyTo (.list [.int 1, .int 2, .null]) = .error (.evaluation "lst.max" m) := by
  obtain ⟨hints, htexts, hothers⟩ := extremes_exact (f := max) (.inl rfl)
  refine ⟨?_, htexts ["b", "c", "a"] (by simp), ?_⟩
  · obtain ⟨n, hn, -, hexact⟩ := hints [9007199254740991, 9007199254740992, -1] (by simp)
    exact ⟨n, hn, hexact (apart_of_le (by simp))⟩
  · refine hothers [.int 1, .int 2, .null] ?_ (by simp) ?_ ?_
    · simp [Floatless, Value.int]
    · rintro ns - h
      match ns, h with
      | [], h => cases h
      | [_], h => cases h
      | [_, _], h => cases h
      | _ :: _ :: _ :: _, h => cases h
    · rintro ss - h
      cases ss <;> cases h

/-- Two large integers with one float, and a single item that is neither integer nor text. -/
theorem larger_integer_missed :
    max.applyTo (.list ([9007199254740992, 9007199254740993].map .int)) =
        .ok (.int 9007199254740992) ∧
      ¬ FirstOf max id [9007199254740992, 9007199254740993] (9007199254740992 : Int) ∧
      max.applyTo (.list [.null]) = .ok .null := by
  refine ⟨?_, ?_, rfl⟩
  · have hsame : rank 9007199254740993 = rank 9007199254740992 := by decide +kernel
    rw [applyTo_eq (.inl rfl)]
    simp [extremeOf, extreme, compare?_int, hsame, better]
  · rintro ⟨_, _, -, hnone, -⟩
    have hlarger : (9007199254740992 : Int) < 9007199254740993 := by decide
    exact hnone 9007199254740993 (by simp) hlarger

end PullFlow.Operator.ListFunction
