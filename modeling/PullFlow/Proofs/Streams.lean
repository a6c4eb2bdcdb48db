import PullFlow.Operator
import Mathlib.Data.List.Infix
import Mathlib.Data.Seq.Basic

/-!
Operators as functions of streams. What a `noop`, `once`, `forever`, `change`, `try` or `feed` hands
down is a function of the stream of outcomes above it, whether that goes on or ends: the outcome in
a place depends on a beginning of the stream, and an operator that reads on has handed down all that
is settled by what it has read.
-/

namespace PullFlow

open Stream'.Seq (ofList)

/-- A stream is a beginning of another. -/
def Begins (s t : Stream'.Seq Outcome) : Prop := ∀ n out, s.get? n = some out → t.get? n = some out

namespace Begins

variable {s t u : Stream'.Seq Outcome} {n : ℕ} {out : Outcome}

theorem refl (s : Stream'.Seq Outcome) : Begins s s := fun _ _ h => h

theorem trans (h : Begins s t) (h' : Begins t u) : Begins s u :=
  fun n out hn => h' n out (h n out hn)

theorem map (h : Begins s t) (f : Outcome → Outcome) : Begins (s.map f) (t.map f) := by
  intro n out hn
  rw [Stream'.Seq.map_get?] at hn ⊢
  obtain ⟨x, hx, rfl⟩ := Option.map_eq_some_iff.mp hn
  rw [h n x hx, Option.map_some]

theorem take (h : Begins s t) (n : ℕ) : s.take n <+: t.take n := by
  rw [List.prefix_iff_getElem?]
  intro m hm
  have hs : (s.take n)[m]? = some (s.take n)[m] := List.getElem?_eq_getElem hm
  rw [Stream'.Seq.getElem?_take] at hs ⊢
  split_ifs at hs ⊢ with hmn
  exact h m _ hs

/-- As far as a beginning goes the streams are the same. -/
theorem take_eq (h : Begins s t) (hn : s.get? n = some out) : s.take n = t.take n := by
  refine List.ext_getElem? fun m => ?_
  rw [Stream'.Seq.getElem?_take, Stream'.Seq.getElem?_take]
  split_ifs with hmn
  · obtain ⟨x, hx⟩ := s.ge_stable hmn.le hn
    rw [hx, h m x hx]
  · rfl

theorem of_take (s : Stream'.Seq Outcome) (k : ℕ) : Begins (ofList (s.take k)) s := by
  intro n out hn
  rw [Stream'.Seq.ofList_get?, Stream'.Seq.getElem?_take] at hn
  split_ifs at hn
  exact hn

theorem of_initial {l l' : List Outcome} (h : l <+: l') : Begins (ofList l) (ofList l') := by
  intro n out hn
  rw [Stream'.Seq.ofList_get?] at hn ⊢
  obtain ⟨rest, rfl⟩ := h
  rw [List.getElem?_append_left (List.getElem?_eq_some_iff.mp hn).1, hn]

end Begins

theorem take_ofList (l : List Outcome) (n : ℕ) : (ofList l).take n = l.take n := by
  refine List.ext_getElem? fun m => ?_
  rw [Stream'.Seq.getElem?_take, Stream'.Seq.ofList_get?, List.getElem?_take]

theorem take_take (s : Stream'.Seq Outcome) {n k : ℕ} (h : n ≤ k) :
    (s.take k).take n = s.take n := by
  refine List.ext_getElem? fun m => ?_
  rw [List.getElem?_take, Stream'.Seq.getElem?_take, Stream'.Seq.getElem?_take]
  split_ifs <;> first | rfl | omega

/-- The operators that are functions of streams. -/
inductive StreamOperator where
  | noop
  | once
  | forever
  | change
  | attempt (default : Value)
  | feed

namespace StreamOperator

/-- The operator before its first read. -/
def body : StreamOperator → OperatorBody
  | noop => .apply .noop
  | once => .once false
  | forever => .forever none
  | change => .change none
  | attempt default => .attempt default
  | feed => .feed []

/-- What an outcome is taken apart into. -/
def items : Outcome → List Outcome
  | .ok (.list vs) => vs.map .ok
  | out => [out]

/-- The values among some outcomes. -/
def values (outs : List Outcome) : List Value := outs.filterMap Except.toOption

/-- Whether a value differs from the last one before it. -/
def changed (before : List Outcome) (v : Value) : Value :=
  .bool ((values before).getLast?.all fun u => !(u == v))

/-- A value in place of an error. -/
def orElse (default : Value) (out : Outcome) : Outcome := .ok (out.toOption.getD default)

open Classical in
/-- The items of all outcomes of a stream, one after the other. -/
noncomputable def flattened (s : Stream'.Seq Outcome) (n : ℕ) : Option Outcome :=
  if h : ∃ k, n < ((s.take k).flatMap items).length then
    ((s.take (Nat.find h)).flatMap items)[n]?
  else none

/-- The outcome that is handed down in a place, from a stream above. -/
noncomputable def outcomeAt (op : StreamOperator) (s : Stream'.Seq Outcome) (n : ℕ) :
    Option Outcome :=
  match op with
  | noop => s.get? n
  | once => if n = 0 then s.get? 0 else (s.get? 0).map fun _ => .ok .null
  | forever =>
      match (values (s.take n)).head? with
      | some v => some (.ok v)
      | none => s.get? n
  | change => (s.get? n).map fun out => out.map (changed (s.take n))
  | attempt default => (s.get? n).map (orElse default)
  | feed => flattened s n

variable {s t : Stream'.Seq Outcome} {n : ℕ} {out : Outcome}

theorem flattened_eq_some :
    flattened s n = some out ↔ ∃ k, ((s.take k).flatMap items)[n]? = some out := by
  classical
  refine ⟨fun h => ?_, fun ⟨k, hk⟩ => ?_⟩
  · rw [flattened] at h
    split_ifs at h with hfinds
    exact ⟨_, h⟩
  · have hfinds : ∃ k, n < ((s.take k).flatMap items).length :=
      ⟨k, (List.getElem?_eq_some_iff.mp hk).1⟩
    rw [flattened, dif_pos hfinds]
    have hle := Nat.find_min' hfinds (List.getElem?_eq_some_iff.mp hk).1
    have hinitial : s.take (Nat.find hfinds) <+: s.take k :=
      take_take s hle ▸ List.take_prefix _ (s.take k)
    obtain ⟨x, hx⟩ : ∃ x, ((s.take (Nat.find hfinds)).flatMap items)[n]? = some x :=
      ⟨_, List.getElem?_eq_getElem (Nat.find_spec hfinds)⟩
    have hsame := Begins.of_initial (hinitial.flatMap items) n x
    rw [Stream'.Seq.ofList_get?, Stream'.Seq.ofList_get?] at hsame
    rw [hx, ← hsame hx, hk]

theorem flattened_mono (h : Begins s t) (hn : flattened s n = some out) :
    flattened t n = some out := by
  obtain ⟨k, hk⟩ := flattened_eq_some.mp hn
  rw [← Stream'.Seq.ofList_get?] at hk
  have ht := Begins.of_initial ((h.take k).flatMap items) n out hk
  rw [Stream'.Seq.ofList_get?] at ht
  exact flattened_eq_some.mpr ⟨k, ht⟩

/-- Where nothing is handed down, nothing is later. -/
theorem outcomeAt_ends (op : StreamOperator) (h : op.outcomeAt s n = none) :
    op.outcomeAt s (n + 1) = none := by
  have hstream (hs : s.get? n = none) : s.get? (n + 1) = none := s.le_stable (Nat.le_succ n) hs
  cases op with
  | noop => exact hstream h
  | once =>
      rw [outcomeAt, if_neg (Nat.succ_ne_zero n)]
      rw [outcomeAt] at h
      split_ifs at h
      · rw [h, Option.map_none]
      · exact h
  | forever =>
      simp only [outcomeAt] at h ⊢
      split at h
      · cases h
      · next hnone =>
        have htake : s.take (n + 1) = s.take n := by
          refine List.ext_getElem? fun m => ?_
          rw [Stream'.Seq.getElem?_take, Stream'.Seq.getElem?_take]
          split_ifs with hm hmn hmn
          · rfl
          · rw [show m = n by omega, h]
          · omega
          · rfl
        rw [htake, hnone]
        exact hstream h
  | change =>
      rw [outcomeAt, Option.map_eq_none_iff] at h ⊢
      exact hstream h
  | attempt default =>
      rw [outcomeAt, Option.map_eq_none_iff] at h ⊢
      exact hstream h
  | feed =>
      rw [outcomeAt, Option.eq_none_iff_forall_ne_some] at h ⊢
      rintro out hout
      obtain ⟨k, hk⟩ := flattened_eq_some.mp hout
      have hlength := (List.getElem?_eq_some_iff.mp hk).1
      exact h _ (flattened_eq_some.mpr ⟨k, List.getElem?_eq_getElem (Nat.lt_of_succ_lt hlength)⟩)

/-- What an operator makes of the stream above it. -/
noncomputable def image (op : StreamOperator) (s : Stream'.Seq Outcome) : Stream'.Seq Outcome :=
  ⟨op.outcomeAt s, fun {_} => op.outcomeAt_ends⟩

theorem image_get? (op : StreamOperator) (s : Stream'.Seq Outcome) (n : ℕ) :
    (op.image s).get? n = op.outcomeAt s n := rfl

/-- An operator that reads more hands down the same, and perhaps more. -/
theorem image_mono (op : StreamOperator) (h : Begins s t) : Begins (op.image s) (op.image t) := by
  intro n out hn
  rw [image_get?] at hn ⊢
  cases op with
  | noop => exact h n out hn
  | once =>
      rw [outcomeAt] at hn ⊢
      split_ifs at hn ⊢ with hzero
      · exact h 0 out hn
      · obtain ⟨x, hx, rfl⟩ := Option.map_eq_some_iff.mp hn
        rw [h 0 x hx, Option.map_some]
  | forever =>
      simp only [outcomeAt] at hn ⊢
      split at hn
      · next v hv =>
        cases hn
        obtain ⟨rest, hrest⟩ := h.take n
        rw [← hrest, values, List.filterMap_append, ← values, List.head?_append, hv, Option.some_or]
      · next hnone =>
        rw [← h.take_eq hn, hnone]
        exact h n out hn
  | change =>
      obtain ⟨x, hx, rfl⟩ := Option.map_eq_some_iff.mp hn
      rw [outcomeAt, ← h.take_eq hx, h n x hx, Option.map_some]
  | attempt default =>
      obtain ⟨x, hx, rfl⟩ := Option.map_eq_some_iff.mp hn
      rw [outcomeAt, h n x hx, Option.map_some]
  | feed => exact flattened_mono h hn

/-- Every outcome that an operator hands down is settled by a beginning of the stream above. -/
theorem image_settled (op : StreamOperator) (h : (op.image s).get? n = some out) :
    ∃ k, (op.image (ofList (s.take k))).get? n = some out := by
  have htake : (ofList (s.take (n + 1))).take n = s.take n := by
    rw [take_ofList, take_take s (Nat.le_succ n)]
  have hget (m : ℕ) (hm : m ≤ n) : (ofList (s.take (n + 1))).get? m = s.get? m := by
    rw [Stream'.Seq.ofList_get?, Stream'.Seq.getElem?_take, if_pos (Nat.lt_succ_of_le hm)]
  cases op with
  | feed =>
      obtain ⟨k, hk⟩ := flattened_eq_some.mp h
      refine ⟨k, flattened_eq_some.mpr ⟨k, ?_⟩⟩
      rw [take_ofList, take_take s le_rfl, hk]
  | _ =>
      refine ⟨n + 1, ?_⟩
      rw [image_get?] at h ⊢
      simpa only [outcomeAt, htake, hget n le_rfl, hget 0 (Nat.zero_le n)] using h

@[simp] theorem values_error (outs : List Outcome) (e : Error) :
    values (outs ++ [.error e]) = values outs := by
  rw [values, List.filterMap_append]
  exact List.append_nil _

@[simp] theorem values_ok (outs : List Outcome) (v : Value) :
    values (outs ++ [.ok v]) = values outs ++ [v] := by
  rw [values, List.filterMap_append]
  rfl

/-- Whether each of some outcomes differs from the one before it. -/
def changes (outs : List Outcome) : List Outcome :=
  outs.mapIdx fun n out => out.map (changed (outs.take n))

theorem changes_concat (outs : List Outcome) (out : Outcome) :
    changes (outs ++ [out]) = changes outs ++ [out.map (changed outs)] := by
  rw [changes, List.mapIdx_concat, List.take_left, changes]
  congr 1
  refine List.mapIdx_eq_mapIdx_iff.mpr fun n hn => ?_
  rw [List.take_append_of_le_length hn.le]

/-- An operator that is not read, with its state after what it got and handed down. -/
inductive Rests : StreamOperator → OperatorBody → List Outcome → List Outcome → Prop where
  | noop {outs} : Rests noop (.apply .noop) outs outs
  | unasked : Rests once (.once false) [] []
  | asked {out k} : Rests once (.once true) [out] (out :: List.replicate k (.ok .null))
  | failing {outs} : values outs = [] → Rests forever (.forever none) outs outs
  | settled {outs v k} : values outs = [] →
      Rests forever (.forever (some v)) (outs ++ [.ok v]) (outs ++ List.replicate (k + 1) (.ok v))
  | change {outs} : Rests change (.change (values outs).getLast?) outs (changes outs)
  | attempt {default outs} :
      Rests (attempt default) (.attempt default) outs (outs.map (orElse default))
  | feed {left outs handed} : outs.flatMap items = handed ++ left.map .ok →
      Rests feed (.feed left) outs handed

/-- An operator that waits for the node above. It has handed down all that it could. -/
inductive Waits : StreamOperator → OperatorBody → List Outcome → List Outcome → Prop where
  | noop {outs} : Waits noop (.apply .noop) outs outs
  | once : Waits once (.once true) [] []
  | forever {outs} : values outs = [] → Waits forever (.forever none) outs outs
  | change {outs} : Waits change (.change (values outs).getLast?) outs (changes outs)
  | attempt {default outs} :
      Waits (attempt default) (.attempt default) outs (outs.map (orElse default))
  | feed {outs} : Waits feed (.feed []) outs (outs.flatMap items)

/-- What a move of an operator makes of what it got and handed down. -/
inductive Continues (op : StreamOperator) (got handed : List Outcome) :
    OperatorBody × OperatorMove → Prop where
  | reply {body out} : Rests op body got (handed ++ [out]) →
      Continues op got handed (body, .reply out)
  | up {body} : Waits op body got handed → Continues op got handed (body, .up .above)

variable {op : StreamOperator} {b : OperatorBody} {got handed : List Outcome}

theorem rests_body (op : StreamOperator) : Rests op op.body [] [] := by
  cases op with
  | noop => exact .noop
  | once => exact .unasked
  | forever => exact .failing rfl
  | change => exact (Rests.change : Rests change (.change (values []).getLast?) [] (changes []))
  | attempt default => exact .attempt
  | feed => exact .feed rfl

/-- An operator that is asked answers or reads on. -/
theorem Rests.begin (h : Rests op b got handed) (now : Nat) (kind : String) :
    Continues op got handed (b.begin now kind) := by
  cases h with
  | noop => exact .up .noop
  | unasked => exact .up .once
  | @asked out k =>
      refine .reply ?_
      rw [List.cons_append, ← List.replicate_succ']
      exact .asked
  | failing hnone => exact .up (.forever hnone)
  | @settled got v k hnone =>
      refine .reply ?_
      rw [List.append_assoc, ← List.replicate_succ']
      exact .settled hnone
  | change => exact .up .change
  | attempt => exact .up .attempt
  | @feed left got handed hitems =>
      cases left with
      | nil =>
          rw [List.map_nil, List.append_nil] at hitems
          subst hitems
          exact .up .feed
      | cons v left =>
          refine .reply (.feed ?_)
          rw [hitems, List.append_assoc]
          rfl

/-- A `change` that is answered tells whether the value differs from the last one. -/
theorem resume_change (now : Nat) (got : List Outcome) (out : Outcome) :
    OperatorBody.resume now .above out (.change (values got).getLast?) =
      (.change (values (got ++ [out])).getLast?, .reply (out.map (changed got))) := by
  cases out with
  | error e =>
      rw [values_error]
      rfl
  | ok v =>
      rw [values_ok, List.getLast?_concat, Except.map, changed]
      cases (values got).getLast? <;> rfl

/-- An operator that is answered answers or reads on. -/
theorem Waits.resume (h : Waits op b got handed) (now : Nat) (out : Outcome) :
    Continues op (got ++ [out]) handed (b.resume now .above out) := by
  cases h with
  | noop => cases out <;> exact .reply .noop
  | once => cases out <;> exact .reply (.asked (k := 0))
  | forever hnone =>
      cases out with
      | error e => exact .reply (.failing ((values_error _ e).trans hnone))
      | ok v => exact .reply (.settled (k := 0) hnone)
  | change =>
      rw [resume_change]
      refine .reply ?_
      rw [← changes_concat]
      exact .change
  | @attempt default got =>
      have hrests : Rests (.attempt default) (.attempt default) (got ++ [out])
          (got.map (orElse default) ++ [orElse default out]) := by
        rw [← List.map_singleton, ← List.map_append]
        exact .attempt
      cases out <;> exact .reply hrests
  | feed =>
      have hitems : (got ++ [out]).flatMap items = got.flatMap items ++ items out := by
        rw [List.flatMap_append, List.flatMap_singleton]
      cases out with
      | error e => exact .reply (.feed (hitems.trans (List.append_nil _).symm))
      | ok v =>
          cases v with
          | list vs =>
              cases vs with
              | nil =>
                  rw [items, List.map_nil, List.append_nil] at hitems
                  rw [← hitems]
                  exact .up .feed
              | cons v vs =>
                  refine .reply (.feed (hitems.trans ?_))
                  rw [List.append_assoc]
                  rfl
          | _ => exact .reply (.feed (hitems.trans (List.append_nil _).symm))

theorem outcomeAt_forever (hnone : values (got.take n) = []) :
    forever.outcomeAt (ofList got) n = got[n]? := by
  simp only [outcomeAt, take_ofList, hnone, List.head?_nil, Stream'.Seq.ofList_get?]

theorem values_take (hnone : values got = []) (n : ℕ) : values (got.take n) = [] := by
  rw [values, List.filterMap_eq_nil_iff] at hnone ⊢
  exact fun out hout => hnone out (List.mem_of_mem_take hout)

theorem image_forever (hnone : values got = []) : forever.image (ofList got) = ofList got :=
  Stream'.Seq.ext fun n => by
    rw [image_get?, outcomeAt_forever (values_take hnone n), Stream'.Seq.ofList_get?]

theorem image_change (got : List Outcome) : change.image (ofList got) = ofList (changes got) :=
  Stream'.Seq.ext fun n => by
    rw [image_get?, outcomeAt, take_ofList, Stream'.Seq.ofList_get?, Stream'.Seq.ofList_get?,
      changes, List.getElem?_mapIdx]

theorem image_attempt (default : Value) (got : List Outcome) :
    (attempt default).image (ofList got) = ofList (got.map (orElse default)) :=
  Stream'.Seq.ext fun n => by
    rw [image_get?, outcomeAt, Stream'.Seq.ofList_get?, Stream'.Seq.ofList_get?, List.getElem?_map]

theorem image_feed (got : List Outcome) : feed.image (ofList got) = ofList (got.flatMap items) := by
  refine Stream'.Seq.ext fun n => Option.ext fun out => ?_
  rw [image_get?, outcomeAt, flattened_eq_some]
  constructor
  · rintro ⟨k, hk⟩
    have hinitial : got.take k <+: got := List.take_prefix k got
    rw [take_ofList, ← Stream'.Seq.ofList_get?] at hk
    exact Begins.of_initial (hinitial.flatMap items) n out hk
  · intro hn
    refine ⟨got.length, ?_⟩
    rw [take_ofList, List.take_length, ← Stream'.Seq.ofList_get?]
    exact hn

/-- What an operator that waits has handed down is all that it can make of what it got. -/
theorem Waits.image_eq (h : Waits op b got handed) : op.image (ofList got) = ofList handed := by
  cases h with
  | noop => rfl
  | once =>
      refine Stream'.Seq.ext fun n => ?_
      rw [image_get?, outcomeAt]
      split_ifs <;> rfl
  | forever hnone => exact image_forever hnone
  | change => exact image_change got
  | attempt => exact image_attempt _ got
  | feed => exact image_feed got

/-- An operator waits for an outcome that a beginning of the stream above settles just if it has not
got all of this beginning. -/
theorem Waits.lacks {x : Outcome} (h : Waits op b got handed) (hgot : Begins (ofList got) t)
    (hs : Begins s t) (hsettled : (op.image s).get? handed.length = some x) :
    ∃ out, s.get? got.length = some out := by
  by_contra hnone
  rw [← Option.ne_none_iff_exists', not_not] at hnone
  have hbegins : Begins s (ofList got) := by
    intro n out hn
    have hlt : n < got.length := by
      by_contra hle
      rw [s.le_stable (Nat.le_of_not_lt hle) hnone] at hn
      cases hn
    have hsame : got[n]? = some got[n] := List.getElem?_eq_getElem hlt
    rw [← Stream'.Seq.ofList_get?] at hsame
    rw [hsame, ← hgot n _ hsame, hs n out hn]
  have hhanded := image_mono op hbegins handed.length x hsettled
  rw [h.image_eq, Stream'.Seq.ofList_get?, List.getElem?_eq_none le_rfl] at hhanded
  cases hhanded

/-- A `forever` passes errors on up to the first value and gives that from then on. -/
theorem begins_settled {errors : List Outcome} (hnone : values errors = []) (v : Value) (k : ℕ) :
    Begins (ofList (errors ++ List.replicate k (.ok v)))
      (forever.image (ofList (errors ++ [.ok v]))) := by
  intro n out hn
  rw [Stream'.Seq.ofList_get?] at hn
  rw [image_get?]
  obtain hlt | hle := Nat.lt_or_ge n errors.length
  · rw [List.getElem?_append_left hlt] at hn
    rw [outcomeAt_forever, List.getElem?_append_left hlt, hn]
    rw [List.take_append_of_le_length hlt.le]
    exact values_take hnone n
  · rw [List.getElem?_append_right hle, List.getElem?_replicate] at hn
    split_ifs at hn
    cases hn
    obtain rfl | hlt := hle.eq_or_lt
    · rw [outcomeAt_forever, List.getElem?_concat_length]
      rw [List.take_left]
      exact hnone
    · have hlength : (errors ++ [(.ok v : Outcome)]).length ≤ n := by
        rw [List.length_append]
        exact hlt
      have htake := List.take_of_length_le hlength
      simp only [outcomeAt, take_ofList, htake, values_ok, hnone, List.nil_append, List.head?_cons]

/-- What an operator has handed down is what it is to make of the stream above. -/
theorem Rests.begins (h : Rests op b got handed) :
    Begins (ofList handed) (op.image (ofList got)) := by
  cases h with
  | noop => exact .refl _
  | unasked => exact fun n out hn => by cases hn
  | @asked first k =>
      intro n out hn
      rw [image_get?, outcomeAt]
      cases n with
      | zero => exact hn
      | succ n =>
          rw [Stream'.Seq.ofList_get?, List.getElem?_cons_succ, List.getElem?_replicate] at hn
          split_ifs at hn
          exact hn
  | failing hnone =>
      rw [image_forever hnone]
      exact .refl _
  | settled hnone => exact begins_settled hnone _ _
  | change => exact image_change got ▸ .refl _
  | attempt => exact image_attempt _ got ▸ .refl _
  | @feed left _ _ hitems =>
      rw [image_feed, hitems]
      exact .of_initial (List.prefix_append _ _)

end StreamOperator
end PullFlow
