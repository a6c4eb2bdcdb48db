import PullFlow.Proofs.Reads
import PullFlow.Proofs.Streams

/-!
A chain as the composition of its operators. The outcomes of the reads of a chain are those of the
stream that the operators make, one after the other, of the stream of the source, and no read asks
the source for more than it takes to tell its outcome.
-/

namespace PullFlow

open Stream'.Seq (ofList)

/-- An outcome as a node of a kind passes it on. -/
def labelled (kind : String) (out : Outcome) : Outcome := out.mapError (Error.relabel kind)

/-- What the nodes, the nearest to the source first, make of the stream of the source. -/
noncomputable def images (nodes : List (String × StreamOperator)) (s : Stream'.Seq Outcome) :
    Stream'.Seq Outcome :=
  nodes.foldl (fun s node => (node.2.image s).map (labelled node.1)) s

theorem images_concat (nodes : List (String × StreamOperator)) (node : String × StreamOperator)
    (s : Stream'.Seq Outcome) :
    images (nodes ++ [node]) s = (node.2.image (images nodes s)).map (labelled node.1) := by
  rw [images, List.foldl_concat, images]

namespace Chain

/-- The operators that a read has not come to, the nearest to the reader first, after the outcomes
that the source gave and those that they handed down. -/
inductive Above : List (String × StreamOperator) → List Operator → List Outcome → List Outcome →
    Prop where
  | source {given} : Above [] [] given given
  | operator {nodes idle given got handed kind op} {component : Operator} :
      component.kind = kind → Above nodes idle given got →
      StreamOperator.Rests op component.body got handed →
      Above ((kind, op) :: nodes) (component :: idle) given (handed.map (labelled kind))

/-- The operators that a read waits in, the nearest to the source first, after the outcomes that
were handed to them and those of the reads. -/
inductive Below : List (String × StreamOperator) → List (Operator × OperatorWait) → List Outcome →
    List Outcome → Prop where
  | reader {results} : Below [] [] results results
  | operator {nodes waiting got handed results kind op} {component : Operator} :
      component.kind = kind → StreamOperator.Waits op component.body got handed →
      Below nodes waiting (handed.map (labelled kind)) results →
      Below ((kind, op) :: nodes) ((component, .above) :: waiting) got results

/-- A chain in the course of a read, after the outcomes that the source gave and those of the reads
before. -/
inductive Flowing (nodes : List (String × StreamOperator)) (c : Chain)
    (given results : List Outcome) : PullPoint → Prop where
  | enter {above below outs} : nodes = above.reverse ++ below → Above above c.idle given outs →
      Below below c.waiting outs results → Flowing nodes c given results .enter
  | source {w} : c.idle = [] → Below nodes c.waiting given results →
      Flowing nodes c given results (.source w)
  | reply {above below outs out} : nodes = above.reverse ++ below →
      Above above c.idle given (outs ++ [out]) → Below below c.waiting outs results →
      Flowing nodes c given results (.reply out)

/-- What the source gives in a step of a read. -/
def Beat.given? (b : Beat) : Option Outcome :=
  match b.point, b.before.idle, b.move with
  | .enter, [], .go (.reply out) | .source _, [], .go (.reply out) => some out
  | _, _, _ => none

/-- The outcomes that the source gave in a read. -/
def givenIn (log : List Beat) : List Outcome := (log.filterMap (·.given?)).reverse

theorem givenIn_cons (b : Beat) (log : List Beat) :
    givenIn (b :: log) = givenIn log ++ b.given?.toList := by
  rw [givenIn, List.filterMap_cons]
  cases b.given? with
  | none => exact (List.append_nil _).symm
  | some out => exact List.reverse_cons

/-- What an operator made of a chain when it was asked or answered. -/
inductive Moved (op : StreamOperator) (kind : String) (idle : List Operator)
    (waiting : List (Operator × OperatorWait)) (got handed : List Outcome) (c : Chain) :
    PullPoint → Prop where
  | reply {component : Operator} {out : Outcome} : component.kind = kind →
      op.Rests component.body got (handed ++ [out]) → c.idle = component :: idle →
      c.waiting = waiting → Moved op kind idle waiting got handed c (.reply (labelled kind out))
  | up {component : Operator} : component.kind = kind → op.Waits component.body got handed →
      c.idle = idle → c.waiting = (component, .above) :: waiting →
      Moved op kind idle waiting got handed c .enter

variable {nodes above : List (String × StreamOperator)} {c : Chain} {b : Beat} {p : PullPoint}
  {op : StreamOperator} {kind : String} {component : Operator} {idle : List Operator}
  {waiting : List (Operator × OperatorWait)} {given results got handed outs : List Outcome}
  {out : Outcome} {s : Stream'.Seq Outcome}

theorem moved_of_continues {m : OperatorBody × OperatorMove} (hkind : component.kind = kind)
    (h : op.Continues got handed m) (hnext : (c.afterOperator component m).2.next? = some p) :
    Moved op kind c.idle c.waiting got handed (c.afterOperator component m).1 p := by
  have hkept (body : OperatorBody) : { component with body := body }.kind = kind := hkind
  subst hkind
  cases h with
  | @reply body out h =>
      cases hnext
      exact .reply (hkept body) h rfl rfl
  | @up body h =>
      cases hnext
      exact .up (hkept body) h rfl rfl

/-- An idle operator is asked. -/
theorem Beat.moved_of_asked (hpoint : b.point = .enter) (hidle : b.before.idle = component :: idle)
    (hkind : component.kind = kind) (hrests : op.Rests component.body got handed)
    (hnext : b.move.next? = some p) :
    Moved op kind idle b.before.waiting got handed b.after p ∧ b.given? = none := by
  obtain ⟨c, point, now, answer⟩ := b
  subst hpoint
  dsimp only at hidle
  have hresult : result ⟨c, .enter, now, answer⟩ = afterOperator { c with idle := idle } component
      (component.body.begin now (nextKind { c with idle := idle })) := by
    simp only [result, step, Chain.enter, hidle]
  rw [move, hresult] at hnext
  rw [after, hresult]
  exact ⟨moved_of_continues hkind (hrests.begin now _) hnext, by simp only [given?, hidle]⟩

/-- A waiting operator is answered. -/
theorem Beat.moved_of_answered (hpoint : b.point = .reply out)
    (hwaiting : b.before.waiting = (component, .above) :: waiting)
    (hkind : component.kind = kind) (hwaits : op.Waits component.body got handed)
    (hnext : b.move.next? = some p) :
    Moved op kind b.before.idle waiting (got ++ [out]) handed b.after p ∧ b.given? = none := by
  obtain ⟨c, point, now, answer⟩ := b
  subst hpoint
  dsimp only at hwaiting
  have hresult : result ⟨c, .reply out, now, answer⟩ =
      afterOperator { c with waiting := waiting } component
        (component.body.resume now .above out) := result_deliver hwaiting
  rw [move, hresult] at hnext
  rw [after, hresult]
  exact ⟨moved_of_continues hkind (hwaits.resume now out) hnext, rfl⟩

/-- The source is asked or goes on. -/
theorem Beat.source_moves (hpoint : b.point = .enter ∨ ∃ w, b.point = .source w)
    (hidle : b.before.idle = []) (hnext : b.move.next? = some p) :
    b.after.idle = [] ∧ b.after.waiting = b.before.waiting ∧
      ((∃ out, p = .reply out ∧ b.given? = some out) ∨
        ∃ w, p = .source w ∧ b.given? = none ∧ ∀ w', b.point = .source w' → w.left < w'.left) := by
  obtain ⟨c, point, now, answer⟩ := b
  dsimp only at hpoint hidle
  obtain ⟨m, hresult, hleft⟩ : ∃ m, result ⟨c, point, now, answer⟩ = c.afterSource m ∧
      ∀ r w w', m.2 = .ask r w → point = .source w' → w.left < w'.left := by
    obtain rfl | ⟨w, rfl⟩ := hpoint
    · exact ⟨c.source.body.begin, by simp only [result, step, Chain.enter, hidle],
        fun _ _ _ _ hpoint => by cases hpoint⟩
    · refine ⟨c.source.body.resume w answer, rfl, fun r w₁ w' hask hpoint => ?_⟩
      cases hpoint
      exact SourceBody.left_resume hask
  obtain ⟨body, answered⟩ := m
  have hmove : move ⟨c, point, now, answer⟩ = (c.afterSource (body, answered)).2 := by
    rw [move, hresult]
  rw [hmove] at hnext
  rw [after, hresult]
  cases answered with
  | reply out =>
      cases hnext
      refine ⟨hidle, rfl, .inl ⟨_, rfl, ?_⟩⟩
      obtain rfl | ⟨w, rfl⟩ := hpoint <;> simp only [given?, hidle, hmove, afterSource]
  | ask r w =>
      cases hnext
      refine ⟨hidle, rfl, .inr ⟨w, rfl, ?_, fun w' => hleft r w w' rfl⟩⟩
      obtain rfl | ⟨w, rfl⟩ := hpoint <;> simp only [given?, hidle, hmove, afterSource]

/-- An operator between those above and those below it moved. -/
theorem Moved.flowing {below : List (String × StreamOperator)}
    (h : Moved op kind idle waiting got handed c p)
    (hnodes : nodes = above.reverse ++ (kind, op) :: below) (habove : Above above idle given got)
    (hbelow : Below below waiting (handed.map (labelled kind)) results) :
    Flowing nodes c given results p := by
  cases h with
  | reply hkind hrests hidle hwaiting =>
      have habove := habove.operator hkind hrests
      rw [List.map_append, List.map_singleton] at habove
      refine .reply ?_ (hidle ▸ habove) (hwaiting ▸ hbelow)
      rw [hnodes, List.reverse_cons, List.append_assoc, List.singleton_append]
  | up hkind hwaits hidle hwaiting =>
      have hbelow := hbelow.operator hkind hwaits
      exact .enter hnodes (hidle ▸ habove) (hwaiting ▸ hbelow)

/-- A step of a read leads from a point at which the chain flows to another. -/
theorem Flowing.next (h : Flowing nodes b.before given results b.point)
    (hnext : b.move.next? = some p) :
    Flowing nodes b.after (given ++ b.given?.toList) results p := by
  have hsource (hpoint : b.point = .enter ∨ ∃ w, b.point = .source w)
      (hidle : b.before.idle = []) (hbelow : Below nodes b.before.waiting given results) :
      Flowing nodes b.after (given ++ b.given?.toList) results p := by
    obtain ⟨hidle, hwaiting, ⟨out, rfl, hgiven⟩ | ⟨w, rfl, hgiven, _⟩⟩ :=
      Beat.source_moves hpoint hidle hnext
    · rw [hgiven]
      have habove : Above [] b.after.idle (given ++ [out]) (given ++ [out]) := hidle ▸ .source
      exact .reply (List.nil_append nodes).symm habove (hwaiting ▸ hbelow)
    · rw [hgiven, Option.toList_none, List.append_nil]
      exact .source hidle (hwaiting ▸ hbelow)
  generalize hpoint : b.point = point at h
  cases h with
  | source hidle hbelow => exact hsource (.inr ⟨_, hpoint⟩) hidle hbelow
  | @enter above below outs hnodes habove hbelow =>
      generalize hidle : b.before.idle = idle at habove
      cases habove with
      | source => exact hsource (.inl hpoint) hidle (hnodes ▸ hbelow)
      | operator hkind habove hrests =>
          obtain ⟨hmoved, hgiven⟩ := Beat.moved_of_asked hpoint hidle hkind hrests hnext
          rw [hgiven, Option.toList_none, List.append_nil]
          rw [List.reverse_cons, List.append_assoc, List.singleton_append] at hnodes
          exact hmoved.flowing hnodes habove hbelow
  | @reply above below outs out hnodes habove hbelow =>
      generalize hwaiting : b.before.waiting = waiting at hbelow
      cases hbelow with
      | reader =>
          have hdone : b.move = .done out := by
            simp only [Beat.move, Beat.result, step, hpoint, deliver, hwaiting]
          rw [hdone] at hnext
          cases hnext
      | operator hkind hwaits hbelow =>
          obtain ⟨hmoved, hgiven⟩ := Beat.moved_of_answered hpoint hwaiting hkind hwaits hnext
          rw [hgiven, Option.toList_none, List.append_nil]
          exact hmoved.flowing hnodes habove hbelow

/-- At the end of a read its outcome is the latest that the chain handed down. -/
theorem Flowing.done (h : Flowing nodes b.before given results b.point)
    (hdone : b.move = .done out) :
    b.after.waiting = [] ∧ Above nodes.reverse b.after.idle given (results ++ [out]) := by
  have hasked : b.point ≠ .asked := by
    intro hpoint
    rw [hpoint] at h
    cases h
  obtain ⟨hpoint, hwaiting, hafter⟩ := Beat.reply_of_done hasked hdone
  rw [hpoint] at h
  cases h with
  | @reply above below outs _ hnodes habove hbelow =>
      rw [hwaiting] at hbelow
      cases hbelow
      rw [hafter, hnodes, List.append_nil, List.reverse_reverse]
      exact ⟨hwaiting, habove⟩

/-! What the points of a read say of the streams. -/

theorem ofList_map (l : List Outcome) (f : Outcome → Outcome) :
    ofList (l.map f) = (ofList l).map f :=
  Stream'.Seq.ext fun n => by
    rw [Stream'.Seq.ofList_get?, Stream'.Seq.map_get?, Stream'.Seq.ofList_get?, List.getElem?_map]

/-- The nodes above a point have handed down what they are to make of the stream of the source. -/
theorem Above.begins (h : Above above idle given outs) (hs : Begins (ofList given) s) :
    Begins (ofList outs) (images above.reverse s) := by
  induction h with
  | source => exact hs
  | operator _ _ hrests ih =>
      rw [List.reverse_cons, images_concat, ofList_map]
      exact (hrests.begins.trans (StreamOperator.image_mono _ (ih hs))).map _

/-- `Reads c₀ given results c`: reads of `c₀` have come to their ends and made `c` of the chain. -/
inductive Reads (c₀ : Chain) : List Outcome → List Outcome → Chain → Prop where
  | none : Reads c₀ [] [] c₀
  | read {given results : List Outcome} {c : Chain} {log : List Beat} {b : Beat} {out : Outcome} :
      Reads c₀ given results c → Reading c log b.before b.point → b.move = .done out →
      Reads c₀ (given ++ givenIn log) (results ++ [out]) b.after

/-- A chain that nobody reads flows once a read begins. -/
theorem Above.flowing {log : List Beat} {c' : Chain} (hidle : c.waiting = [])
    (habove : Above nodes.reverse c.idle given results) (hreading : Reading c log c' p) :
    Flowing nodes c' (given ++ givenIn log) results p := by
  induction hreading with
  | enters _ =>
      rw [givenIn, List.filterMap_nil, List.reverse_nil, List.append_nil]
      have hbelow : Below [] c.waiting results results := hidle ▸ .reader
      refine .enter ?_ habove hbelow
      rw [List.reverse_reverse, List.append_nil]
  | goes _ hnext ih =>
      rw [givenIn_cons, ← List.append_assoc]
      exact ih.next hnext

/-- Operators of which each is one of the stream operators before its first read. -/
def Fresh (nodes : List (String × StreamOperator)) (operators : List Operator) : Prop :=
  operators.map (fun op => (op.kind, op.body)) = nodes.map fun node => (node.1, node.2.body)

theorem Fresh.rests {operators : List Operator} (h : Fresh nodes operators) :
    Above nodes operators [] [] := by
  induction operators generalizing nodes with
  | nil =>
      cases List.map_eq_nil_iff.mp h.symm
      exact .source
  | cons component operators ih =>
      obtain ⟨node, nodes, rfl, hnode, hrest⟩ := List.map_eq_cons_iff.mp h.symm
      obtain ⟨kind, op⟩ := node
      injection hnode with hkind hbody
      have hrests : op.Rests component.body [] [] := hbody ▸ op.rests_body
      exact (ih hrest.symm).operator hkind.symm hrests

/-- Between two reads the chain has handed down the outcomes of the reads. -/
theorem Reads.rests {source : Source} {operators : List Operator} (h : Fresh nodes operators)
    (hreads : Reads (make source operators).link given results c) :
    c.waiting = [] ∧ Above nodes.reverse c.idle given results := by
  generalize hc₀ : (make source operators).link = c₀ at hreads
  induction hreads with
  | none =>
      subst hc₀
      have hreverse : Fresh nodes.reverse operators.reverse := by
        rw [Fresh, List.map_reverse, List.map_reverse, h]
      exact ⟨rfl, hreverse.rests⟩
  | read _ hreading hdone ih =>
      obtain ⟨hidle, habove⟩ := ih
      exact (habove.flowing hidle hreading).done hdone

/-! A read of which the streams settle the outcome comes to its end. -/

/-- The steps of a read without end, with what the source has given before each. -/
structure Goes (beats : ℕ → Beat) (gifts : ℕ → List Outcome) : Prop where
  next : ∀ k, (beats (k + 1)).before = (beats k).after ∧
    (beats k).move.next? = some (beats (k + 1)).point
  gives : ∀ k, gifts (k + 1) = gifts k ++ (beats k).given?.toList

/-- At some step an outcome comes down from the nodes above to those that wait. -/
def Returns (beats : ℕ → Beat) (gifts : ℕ → List Outcome) (above : List (String × StreamOperator))
    (waiting : List (Operator × OperatorWait)) (outs : List Outcome) : Prop :=
  ∃ k out, (beats k).point = .reply out ∧ (beats k).before.waiting = waiting ∧
    Above above (beats k).before.idle (gifts k) (outs ++ [out])

namespace Goes

variable {beats : ℕ → Beat} {gifts : ℕ → List Outcome} {k : ℕ}

/-- The source answers, since it waits only so often. -/
theorem source_returns (h : Goes beats gifts)
    (hpoint : (beats k).point = .enter ∨ ∃ w, (beats k).point = .source w)
    (hidle : (beats k).before.idle = []) :
    Returns beats gifts [] (beats k).before.waiting (gifts k) := by
  have hmoves {k : ℕ} (hpoint : (beats k).point = .enter ∨ ∃ w, (beats k).point = .source w)
      (hidle : (beats k).before.idle = []) :
      Returns beats gifts [] (beats k).before.waiting (gifts k) ∨
        ∃ w, (beats (k + 1)).point = .source w ∧ (beats (k + 1)).before.idle = [] ∧
          (beats (k + 1)).before.waiting = (beats k).before.waiting ∧ gifts (k + 1) = gifts k ∧
          ∀ w', (beats k).point = .source w' → w.left < w'.left := by
    obtain ⟨hbefore, hnext⟩ := h.next k
    have hgives := h.gives k
    obtain ⟨hidle, hwaiting, ⟨out, hp, hgiven⟩ | ⟨w, hp, hgiven, hleft⟩⟩ :=
      Beat.source_moves hpoint hidle hnext
    · refine .inl ⟨k + 1, out, hp, hbefore ▸ hwaiting, ?_⟩
      rw [hbefore, hidle, hgives, hgiven]
      exact .source
    · rw [hgiven, Option.toList_none, List.append_nil] at hgives
      exact .inr ⟨w, hp, hbefore ▸ hidle, hbefore ▸ hwaiting, hgives, hleft⟩
  have hsource (n : ℕ) {k : ℕ} {w : SourceWait} (hpoint : (beats k).point = .source w)
      (hidle : (beats k).before.idle = []) (hn : w.left < n) :
      Returns beats gifts [] (beats k).before.waiting (gifts k) := by
    induction n generalizing k w with
    | zero => omega
    | succ n ih =>
        obtain hreturns | ⟨w', hp, hidle, hwaiting, hgives, hleft⟩ :=
          hmoves (.inr ⟨w, hpoint⟩) hidle
        · exact hreturns
        · rw [← hwaiting, ← hgives]
          exact ih hp hidle (Nat.lt_of_lt_of_le (hleft w hpoint) (Nat.le_of_lt_succ hn))
  obtain hreturns | ⟨w', hp, hidle, hwaiting, hgives, _⟩ := hmoves hpoint hidle
  · exact hreturns
  · rw [← hwaiting, ← hgives]
    exact hsource _ hp hidle (Nat.lt_succ_self _)

/-- An operator that moved answers, if it does so where it reads on. -/
theorem returns_of_moved
    (hmoved : Moved op kind idle waiting got handed (beats k).before (beats k).point)
    (habove : Above above idle (gifts k) got)
    (hwaits : ∀ component : Operator, (beats k).point = .enter → component.kind = kind →
      op.Waits component.body got handed → Above above (beats k).before.idle (gifts k) got →
      (beats k).before.waiting = (component, .above) :: waiting →
      Returns beats gifts ((kind, op) :: above) waiting (handed.map (labelled kind))) :
    Returns beats gifts ((kind, op) :: above) waiting (handed.map (labelled kind)) := by
  generalize hpoint : (beats k).point = p at hmoved
  cases hmoved with
  | @reply component out hkind hrests hidle hwaiting =>
      have habove := habove.operator hkind hrests
      rw [List.map_append, List.map_singleton] at habove
      exact ⟨k, labelled kind out, hpoint, hwaiting, hidle ▸ habove⟩
  | up hkind hup hidle hwaiting =>
      exact hwaits _ hpoint hkind hup (hidle ▸ habove) hwaiting

/-- An operator that waits answers if the nodes above it do, as soon as it has got the beginning
that settles its outcome. -/
theorem waiting_returns (h : Goes beats gifts) (hs : ∀ k, Begins (ofList (gifts k)) s)
    (hreturns : ∀ k outs, (beats k).point = .enter →
      Above above (beats k).before.idle (gifts k) outs →
      (images above.reverse s).get? outs.length ≠ none →
      Returns beats gifts above (beats k).before.waiting outs)
    {m : ℕ} {x : Outcome}
    (hsettled : (op.image (ofList ((images above.reverse s).take m))).get? handed.length = some x)
    (missing : ℕ) (hpoint : (beats k).point = .enter) (hkind : component.kind = kind)
    (hwaits : op.Waits component.body got handed)
    (habove : Above above (beats k).before.idle (gifts k) got)
    (hwaiting : (beats k).before.waiting = (component, .above) :: waiting)
    (hm : m ≤ got.length + missing) :
    Returns beats gifts ((kind, op) :: above) waiting (handed.map (labelled kind)) := by
  induction missing generalizing k got component with
  | zero =>
      obtain ⟨y, hy⟩ := hwaits.lacks (habove.begins (hs k)) (.of_take _ m) hsettled
      have hlt : ¬ got.length < m := Nat.not_lt.mpr hm
      rw [Stream'.Seq.ofList_get?, Stream'.Seq.getElem?_take, if_neg hlt] at hy
      cases hy
  | succ missing ih =>
      obtain ⟨y, hy⟩ := hwaits.lacks (habove.begins (hs k)) (.of_take _ m) hsettled
      have hmore : (images above.reverse s).get? got.length ≠ none := by
        rw [Begins.of_take _ m _ _ hy]
        exact Option.some_ne_none y
      obtain ⟨j, out, hp, hw, habove⟩ := hreturns k got hpoint habove hmore
      obtain ⟨hbefore, hnext⟩ := h.next j
      obtain ⟨hmoved, hgiven⟩ := Beat.moved_of_answered hp (hw.trans hwaiting) hkind hwaits hnext
      have hgifts := h.gives j
      rw [hgiven, Option.toList_none, List.append_nil] at hgifts
      rw [← hbefore] at hmoved
      have hlength : m ≤ (got ++ [out]).length + missing := by
        rw [List.length_append, List.length_singleton]
        omega
      exact returns_of_moved hmoved (hgifts ▸ habove) fun _ hp hkind hwaits habove hw =>
        ih hp hkind hwaits habove hw hlength

/-- The nodes above a point answer if the streams settle what they are to answer. -/
theorem returns (h : Goes beats gifts) (hs : ∀ k, Begins (ofList (gifts k)) s)
    (hpoint : (beats k).point = .enter) (habove : Above above (beats k).before.idle (gifts k) outs)
    (hsettled : (images above.reverse s).get? outs.length ≠ none) :
    Returns beats gifts above (beats k).before.waiting outs := by
  induction above generalizing k outs with
  | nil =>
      generalize hidle : (beats k).before.idle = idle at habove
      cases habove
      exact h.source_returns (.inl hpoint) hidle
  | cons node above ih =>
      generalize hidle : (beats k).before.idle = idle at habove
      cases habove with
      | operator hkind habove hrests =>
          obtain ⟨hbefore, hnext⟩ := h.next k
          obtain ⟨hmoved, hgiven⟩ := Beat.moved_of_asked hpoint hidle hkind hrests hnext
          have hgifts := h.gives k
          rw [hgiven, Option.toList_none, List.append_nil] at hgifts
          rw [← hbefore] at hmoved
          rw [List.reverse_cons, images_concat, List.length_map, Stream'.Seq.map_get?, ne_eq,
            Option.map_eq_none_iff] at hsettled
          obtain ⟨x, hx⟩ := Option.ne_none_iff_exists'.mp hsettled
          obtain ⟨m, hm⟩ := StreamOperator.image_settled _ hx
          exact returns_of_moved hmoved (hgifts ▸ habove) fun _ hp hkind hwaits habove hw =>
            waiting_returns h hs (fun _ _ => ih) hm m hp hkind hwaits habove hw
              (Nat.le_add_left _ _)

end Goes

variable {source : Source} {operators : List Operator}

end Chain
end PullFlow
