import Mathlib.Data.List.Forall2
import PullFlow.Proofs.Composition

/-!
Chains whose operators keep nothing between two payloads. Each read of such a chain asks the source
for one value, and what it comes to is that outcome taken through one operator after the other. None
of these reads goes on for ever.
-/

namespace PullFlow.Chain

/-- What operators, the nearest to the source first, make of an outcome. -/
def through (nodes : List (String × Operator.Pure)) (out : Outcome) : Outcome :=
  nodes.foldl (fun out node => labelled node.1 (out.bind node.2.apply)) out

theorem through_concat (nodes : List (String × Operator.Pure)) (node : String × Operator.Pure)
    (out : Outcome) :
    through (nodes ++ [node]) out = labelled node.1 ((through nodes out).bind node.2.apply) := by
  rw [through, List.foldl_concat, through]

/-- An operator that applies a function. -/
structure Applies (node : String × Operator.Pure) (component : Operator) : Prop where
  kind : component.kind = node.1
  body : component.body = .apply node.2

/-- An operator that applies a function, waiting for the node above it. -/
def Awaits (node : String × Operator.Pure) (x : Operator × OperatorWait) : Prop :=
  Applies node x.1 ∧ x.2 = .above

variable {nodes : List (String × Operator.Pure)} {node : String × Operator.Pure} {c : Chain}
  {b : Beat} {p : PullPoint} {given results : List Outcome} {component : Operator}

/-- A chain of such operators in the course of a read, after the outcomes that the source gave and
those of the reads before. -/
inductive Piping (nodes : List (String × Operator.Pure)) (c : Chain)
    (given results : List Outcome) : PullPoint → Prop where
  | enter {above below} : nodes = above.reverse ++ below → List.Forall₂ Applies above c.idle →
      List.Forall₂ Awaits below c.waiting → results = given.map (through nodes) →
      Piping nodes c given results .enter
  | source {w} : c.idle = [] → List.Forall₂ Awaits nodes c.waiting →
      results = given.map (through nodes) → Piping nodes c given results (.source w)
  | reply {above below before out} : nodes = above.reverse ++ below →
      List.Forall₂ Applies above c.idle → List.Forall₂ Awaits below c.waiting →
      given = before ++ [out] → results = before.map (through nodes) →
      Piping nodes c given results (.reply (through above.reverse out))

theorem Applies.begin (h : Applies node component) (now : Nat) (kind : String) :
    component.body.begin now kind = (component.body, .up .above) := by
  rw [h.body]
  rfl

theorem Applies.resume (h : Applies node component) (now : Nat) (out : Outcome) :
    component.body.resume now .above out = (component.body, .reply (out.bind node.2.apply)) := by
  rw [h.body]
  cases out <;> rfl

/-- The source is asked or goes on. -/
theorem Piping.next_of_source (hpoint : b.point = .enter ∨ ∃ w, b.point = .source w)
    (hidle : b.before.idle = []) (hwaiting : List.Forall₂ Awaits nodes b.before.waiting)
    (hresults : results = given.map (through nodes)) (hnext : b.move.next? = some p) :
    Piping nodes b.after (given ++ b.given?.toList) results p := by
  obtain ⟨hidle, hsame, ⟨out, rfl, hgiven⟩ | ⟨w, rfl, hgiven, _⟩⟩ :=
    Beat.source_moves hpoint hidle hnext
  · rw [hgiven]
    have habove : List.Forall₂ Applies [] b.after.idle := hidle ▸ .nil
    exact .reply (List.nil_append nodes).symm habove (hsame ▸ hwaiting) rfl hresults
  · rw [hgiven, Option.toList_none, List.append_nil]
    exact .source hidle (hsame ▸ hwaiting) hresults

/-- A step of a read leads from a point of it to another. -/
theorem Piping.next (h : Piping nodes b.before given results b.point)
    (hnext : b.move.next? = some p) :
    Piping nodes b.after (given ++ b.given?.toList) results p := by
  obtain ⟨c, point, now, answer⟩ := b
  dsimp only at h
  cases h with
  | source hidle hwaiting hresults =>
      exact next_of_source (.inr ⟨_, rfl⟩) hidle hwaiting hresults hnext
  | @enter above below hnodes habove hbelow hresults =>
      generalize hidle : c.idle = idle at habove
      cases habove with
      | nil => exact next_of_source (.inl rfl) hidle (hnodes ▸ hbelow) hresults hnext
      | @cons node component above idle happlies habove =>
          have hresult : Beat.result ⟨c, .enter, now, answer⟩ =
              ({ c with idle := idle, waiting := (component, .above) :: c.waiting },
                .go .enter) := by
            simp only [Beat.result, step, Chain.enter, hidle, happlies.begin, afterOperator]
          rw [Beat.move, hresult] at hnext
          cases hnext
          rw [Beat.after, hresult]
          have hgiven : Beat.given? ⟨c, .enter, now, answer⟩ = none := by
            simp only [Beat.given?, hidle]
          rw [hgiven, Option.toList_none, List.append_nil]
          rw [List.reverse_cons, List.append_assoc, List.singleton_append] at hnodes
          exact .enter hnodes habove (.cons ⟨happlies, rfl⟩ hbelow) hresults
  | @reply above below before out hnodes habove hbelow hgiven hresults =>
      generalize hwaiting : c.waiting = waiting at hbelow
      cases hbelow with
      | nil =>
          have hdone : Beat.move ⟨c, .reply (through above.reverse out), now, answer⟩ =
              .done (through above.reverse out) := by
            simp only [Beat.move, Beat.result, step, deliver, hwaiting]
          rw [hdone] at hnext
          cases hnext
      | @cons node x below waiting hawaits hbelow =>
          obtain ⟨component, w⟩ := x
          obtain ⟨happlies, rfl⟩ := hawaits
          have hout : component.passOn ((through above.reverse out).bind node.2.apply) =
              through (node :: above).reverse out := by
            rw [List.reverse_cons, through_concat, ← happlies.kind]
            rfl
          have hresult : Beat.result ⟨c, .reply (through above.reverse out), now, answer⟩ =
              ({ c with idle := component :: c.idle, waiting := waiting },
                .go (.reply (through (node :: above).reverse out))) := by
            rw [← hout]
            simp only [Beat.result, step, deliver, hwaiting, happlies.resume, afterOperator]
          rw [Beat.move, hresult] at hnext
          cases hnext
          rw [Beat.after, hresult, Beat.given?, Option.toList_none, List.append_nil]
          refine .reply ?_ (.cons happlies habove) hbelow hgiven hresults
          rw [hnodes, List.reverse_cons, List.append_assoc, List.singleton_append]

/-- At the end of a read its outcome is what the operators make of the latest of the source. -/
theorem Piping.done {out : Outcome} (h : Piping nodes b.before given results b.point)
    (hdone : b.move = .done out) :
    b.after.waiting = [] ∧ List.Forall₂ Applies nodes.reverse b.after.idle ∧
      results ++ [out] = given.map (through nodes) := by
  have hasked : b.point ≠ .asked := by
    intro hpoint
    rw [hpoint] at h
    cases h
  obtain ⟨hpoint, hwaiting, hafter⟩ := Beat.reply_of_done hasked hdone
  rw [hpoint] at h
  generalize hreply : PullPoint.reply out = point at h
  cases h with
  | enter | source => cases hreply
  | @reply above below before given' hnodes habove hbelow hgiven hresults =>
      injection hreply with hout
      rw [hwaiting] at hbelow
      cases hbelow
      rw [List.append_nil] at hnodes
      rw [hafter, hnodes, List.reverse_reverse, ← hnodes, hout, hgiven, hresults, List.map_append,
        List.map_singleton, hnodes]
      exact ⟨hwaiting, habove, rfl⟩

/-- A chain that nobody reads is in the course of a read once one begins. -/
theorem piping_of_reading {log : List Beat} {c' : Chain} (hwaiting : c.waiting = [])
    (hidle : List.Forall₂ Applies nodes.reverse c.idle)
    (hresults : results = given.map (through nodes)) (hreading : Reading c log c' p) :
    Piping nodes c' (given ++ givenIn log) results p := by
  induction hreading with
  | enters _ =>
      rw [givenIn, List.filterMap_nil, List.reverse_nil, List.append_nil]
      have hbelow : List.Forall₂ Awaits [] c.waiting := hwaiting ▸ .nil
      refine .enter ?_ hidle hbelow hresults
      rw [List.reverse_reverse, List.append_nil]
  | goes _ hnext ih =>
      rw [givenIn_cons, ← List.append_assoc]
      exact ih.next hnext

/-- Between two reads the outcomes of the reads are what the operators make of those of the
source. -/
theorem Reads.piped {source : Source} {operators : List Operator}
    (happlies : List.Forall₂ Applies nodes operators)
    (hreads : Reads (make source operators).link given results c) :
    c.waiting = [] ∧ List.Forall₂ Applies nodes.reverse c.idle ∧
      results = given.map (through nodes) := by
  generalize hc₀ : (make source operators).link = c₀ at hreads
  induction hreads with
  | none =>
      subst hc₀
      exact ⟨rfl, List.forall₂_reverse_iff.mpr happlies, rfl⟩
  | read _ hreading hdone ih =>
      obtain ⟨hwaiting, hidle, hresults⟩ := ih
      exact (piping_of_reading hwaiting hidle hresults hreading).done hdone

/-- None of these operators is a `feed`. -/
theorem Piping.feedsEmpty (h : Piping nodes b.before given results b.point) :
    b.feedsEmpty = false := by
  obtain ⟨c, point, now, answer⟩ := b
  cases h with
  | enter | source => rfl
  | reply hnodes habove hbelow =>
      dsimp only at hbelow
      unfold Beat.feedsEmpty
      split
      · next hpoint hwaiting =>
        dsimp only at hwaiting
        rw [hwaiting] at hbelow
        cases hbelow with
        | cons hawaits _ => rw [hawaits.1.body]; rfl
      · rfl

theorem Reads.not_endless {source : Source} {operators : List Operator} {beats : ℕ → Beat}
    (happlies : List.Forall₂ Applies nodes operators)
    (hreads : Reads (make source operators).link given results c) : ¬ Endless c beats := by
  intro hendless
  obtain ⟨hwaiting, hidle, hresults⟩ := hreads.piped happlies
  obtain ⟨k, _, hempty⟩ := hendless.empties hwaiting 0
  have hpiping := piping_of_reading hwaiting hidle hresults (hendless.reading k)
  rw [hpiping.feedsEmpty] at hempty
  cases hempty

end PullFlow.Chain
