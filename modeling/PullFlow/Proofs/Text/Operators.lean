import PullFlow.Proofs.PureChains
import PullFlow.Proofs.Text.Pieces

/-!
The operators that cut a text at a delimiter and join items with a delimiter between them. Set up
with the same delimiter and behind each other in a chain, they hand every text down as it came,
whatever the delimiter: one that overlaps itself, one that stands at the ends of the text or next to
itself, and the empty one.
-/

namespace PullFlow

open Operator (Pure)

namespace Text

variable {d s : String}

theorem toList_ne_nil (hd : d ≠ "") : d.toList ≠ [] := fun h =>
  hd (String.toList_inj.mp (h.trans String.toList_empty.symm))

/-- No item has the delimiter in it. -/
theorem not_infix_of_mem_split (hd : d ≠ "") {item : String} (h : item ∈ split d s) :
    ¬ d.toList <:+: item.toList := by
  obtain ⟨piece, hpiece, rfl⟩ := List.mem_map.mp h
  rw [String.toList_ofList]
  exact not_infix_of_mem_pieces (toList_ne_nil hd) hpiece

/-- A text without the delimiter is its one item. -/
theorem split_of_not_infix (hd : d ≠ "") (h : ¬ d.toList <:+: s.toList) : split d s = [s] := by
  rw [split, (pieces_eq_singleton_iff (toList_ne_nil hd)).mpr h, List.map_singleton,
    String.ofList_toList]

end Text

/-- What cutting a text gives are items that joining puts together again. Where the delimiter is not
empty, no item has it in it, and a text without it is its own one item. -/
structure Operator.Cuts (d s : String) (items : List String) : Prop where
  cut : (Pure.split (some d)).apply (.text s) = .ok (.list (items.map .text))
  joined : (Pure.join d).apply (.list (items.map .text)) = .ok (.text s)
  clean : d ≠ "" → ∀ item ∈ items, ¬ d.toList <:+: item.toList
  whole : d ≠ "" → ¬ d.toList <:+: s.toList → items = [s]

theorem Operator.cuts_split (d s : String) : Cuts d s (Text.split d s) where
  cut := rfl
  joined := by
    have hplain : ((Text.split d s).map Value.text).map Value.plain = Text.split d s := by
      rw [List.map_map]
      exact List.map_id _
    simp only [Pure.apply, Operator.joined, hplain, Text.join_split]
  clean hd _ hitem := Text.not_infix_of_mem_split hd hitem
  whole := Text.split_of_not_infix

namespace OperatorBody

variable {st : Scope.Store} {p : Params} {d : String}

theorem initialise_split (h : p.value "delim" = .text d) (unset : Option String) :
    (initialise st p (apply (.split unset))).body = apply (.split (some d)) := by
  have hget : p.get? "delim" = some (.text d) := by
    unfold Params.value at h
    cases hp : p.get? "delim" with
    | none => rw [hp] at h; cases h
    | some v => rw [hp] at h; exact congrArg some h
  simp only [initialise, initialisePure, hget]
  rfl

theorem initialise_join (h : p.value "delim" = .text d) (unset : String) :
    (initialise st p (apply (.join unset))).body = apply (.join d) := by
  simp only [initialise, initialisePure, h]
  rfl

end OperatorBody

namespace Chain

theorem through_split_join (d s splitter joiner : String) :
    through [(splitter, .split (some d)), (joiner, .join d)] (.ok (.text s)) = .ok (.text s) := by
  obtain ⟨hcut, hjoined, -, -⟩ := Operator.cuts_split d s
  simp only [through, List.foldl_cons, List.foldl_nil, labelled, Except.bind, Except.mapError, hcut,
    hjoined]

/-- Joining undoes cutting, for two operators set up with the same delimiter. In a chain with the
two every text comes through as it is, whatever else the source gives, and every read ends. -/
theorem cut_and_joined_back {st st' : Scope.Store} {p q : Params} {d unset' : String}
    {unset : Option String} {source : Source} {splitter joiner : Operator}
    {given results : List Outcome} {c : Chain}
    (hp : p.value "delim" = .text d) (hq : q.value "delim" = .text d)
    (hsplitter : splitter.body = (OperatorBody.initialise st p (.apply (.split unset))).body)
    (hjoiner : joiner.body = (OperatorBody.initialise st' q (.apply (.join unset'))).body)
    (hreads : Reads (make source [splitter, joiner]).link given results c) :
    (∀ s : String, ∃ items, Operator.Cuts d s items) ∧ results.length = given.length ∧
      (∀ (n : ℕ) (s : String), given[n]? = some (.ok (.text s)) →
        results[n]? = some (.ok (.text s))) ∧
      ∀ beats, ¬ Endless c beats := by
  rw [OperatorBody.initialise_split hp] at hsplitter
  rw [OperatorBody.initialise_join hq] at hjoiner
  have happlies : List.Forall₂ Applies [(splitter.kind, .split (some d)), (joiner.kind, .join d)]
      [splitter, joiner] := .cons ⟨rfl, hsplitter⟩ (.cons ⟨rfl, hjoiner⟩ .nil)
  obtain ⟨_, _, hresults⟩ := hreads.piped happlies
  refine ⟨fun s => ⟨_, Operator.cuts_split d s⟩, ?_, fun n s hn => ?_,
    fun beats => hreads.not_endless happlies⟩
  · rw [hresults, List.length_map]
  · rw [hresults, List.getElem?_map, hn, Option.map_some, through_split_join]

/-- The delimiter of an operator that was given two letters for it. -/
def doubled : Params := ⟨[("delim", .text "aa")], []⟩

/-- One text, cut at the delimiter and joined. -/
def cutting (s : String) : Chain :=
  (make (.make "const" (.constant (.text s)) ⟨[], []⟩)
    [.make "split" (.apply (.split (some "aa"))) ⟨[.literal (.text "aa")], []⟩,
      .make "lst.join" (.apply (.join "aa")) ⟨[.literal (.text "aa")], []⟩]).link

/-- The delimiter overlaps itself and stands at the beginning of the text. -/
theorem overlaps_come_through :
    doubled.value "delim" = .text "aa" ∧
      (OperatorBody.schema (.apply (.split none))).bind "split" [.text "aa"] [] = .ok doubled ∧
      Text.split "aa" "aabaaa" = ["", "b", "a"] ∧ (∃ items, Operator.Cuts "aa" "aabaaa" items) ∧
      ∃ c, Reads (cutting "aabaaa") [.ok (.text "aabaaa")] [.ok (.text "aabaaa")] c := by
  let beats := beatAt (cutting "aabaaa") (.ok .null)
  have hreading : Reading (cutting "aabaaa") (logOf beats 5) (beats 5).before (beats 5).point :=
    reading_beatAt rfl (by decide +kernel)
  obtain ⟨out, hdone⟩ : ∃ out, (beats 5).move = .done out := ⟨_, rfl⟩
  have hreads : Reads (cutting "aabaaa") [.ok (.text "aabaaa")] [out] (beats 5).after :=
    Reads.none.read hreading hdone
  have hback := @cut_and_joined_back .empty .empty doubled doubled "aa" "" none _ _ _ _ _ _
    rfl rfl rfl rfl hreads
  rw [Option.some.inj (hback.2.2.1 0 "aabaaa" rfl)] at hreads
  exact ⟨rfl, rfl, by decide +kernel, hback.1 "aabaaa", _, hreads⟩

end Chain
end PullFlow
