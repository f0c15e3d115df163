/-
What adapting a call does to the quotations in it and to those it stands in. Nothing is adapted for being quoted or for
not being quoted.

- `LeavesQuoted`: no edit that the dialect asks for finds anything in what is quoted of a call.
- `telltale_apply`: the rule leaves what is quoted alone exactly if that holds of every call.
-/
import SqlDialects.Proofs.Aggregate.Calls

namespace SqlDialects.Aggregate

open Text Fragment Cursor

/-- wherever a call begins, read on from `q`, none of the edits finds anything in its quoted characters -/
def LeavesQuoted (needs : Capabilities) (q : Quoting) (text : Fragment) : Prop :=
  ∀ front rest call, text = front ++ rest → callAt? rest = some call →
    ∀ edit ∈ edits needs, NoMatch edit none (quotedFrom (q.run front) call)

variable {needs : Capabilities}

/-! ## One position at a time -/

theorem leavesQuoted_nil (needs : Capabilities) (q : Quoting) : LeavesQuoted needs q [] := eachCall_nil _

theorem leavesQuoted_cons {q : Quoting} {c : Char} {rest : Fragment} (h : callAt? (c :: rest) = none) :
    LeavesQuoted needs q (c :: rest) ↔ LeavesQuoted needs (q.step c) rest := eachCall_cons h

theorem leavesQuoted_call {q : Quoting} {call rest : Fragment} (h : OneLineCall call rest) :
    LeavesQuoted needs q (call ++ rest) ↔
      (∀ edit ∈ edits needs, NoMatch edit none (quotedFrom q call)) ∧ LeavesQuoted needs (q.run call) rest := by
  refine (eachCall_call h fun front tail hsplit hcall edit hedit => ?_).trans (and_congr Iff.rfl ?_)
  · -- nothing is found in a part of what was searched
    have hno := hcall edit hedit
    rw [hsplit, quotedFrom_append] at hno
    exact (noMatch_before hedit).1 hno.behind
  · simp only [EachCall, LeavesQuoted, Quoting.run_append]

/-! ## The edits leave traces -/

/-- what is quoted of an adapted call, which may begin inside a quotation -/
theorem telltale_adaptCall (hn : ∀ name ∈ needs.aggregateFunction, Flat name.toList)
    (ht : ∀ name ∈ needs.aggregateFunction, traces callName < traces name.toList) (call : Fragment) {q : Quoting}
    (hq : q.Proper) :
    Telltale (∀ edit ∈ edits needs, NoMatch edit none (quotedFrom q call)) (quotedFrom q call)
      (quotedFrom q (adaptCall needs call)) := by
  rw [adaptCall_eq_foldl]
  exact telltale_foldl (quotedFrom q) (fun _ he call =>
    (gentle_of_mem_edits hn he).telltale (telling_of_mem_edits ht he) none call q hq) call

theorem telltale_replaceFrom (hn : ∀ name ∈ needs.aggregateFunction, Flat name.toList)
    (ht : ∀ name ∈ needs.aggregateFunction, traces callName < traces name.toList) (before : Option Char)
    (sql : Fragment) : ∀ q : Quoting, q.Proper →
      Telltale (LeavesQuoted needs q sql) (quotedFrom q sql) (quotedFrom q (replaceFrom (call needs) before 0 sql)) := by
  refine replaceFrom_induction (covers_call needs) (motive := fun _ text out => ∀ q : Quoting, q.Proper →
    Telltale (LeavesQuoted needs q text) (quotedFrom q text) (quotedFrom q out)) ?nil ?keep ?replace before sql
  case nil => intro _ q _; exact .refl (leavesQuoted_nil needs q) []
  case keep =>
    intro _ c rest out hnone ih q hq
    have hrest := (ih (q.step c) (Quoting.proper_step hq c)).congr
      (leavesQuoted_cons (Option.map_eq_none_iff.1 hnone)).symm
    by_cases hc : q.encloses c = true
    · simp only [quotedFrom, if_pos hc]; exact hrest.cons c
    · simp only [quotedFrom, if_neg hc]; exact hrest
  case replace =>
    intro _ found rest out hfound ih q hq
    obtain ⟨matched, hcall, rfl⟩ := Option.map_eq_some_iff.1 hfound
    obtain ⟨rest', htext, hone⟩ := callAt?_eq_some_iff.1 hcall
    obtain rfl := List.append_cancel_left htext
    have hrun : q.run (adaptCall needs matched) = q.run matched := by
      have := (interchangeable_adaptCall hn matched (s := ⟨q, 0⟩) hq).run_eq
      rw [← quoting_run ⟨q, 0⟩ matched, this, quoting_run]
    have hrest := ih (q.run matched) (Quoting.proper_run hq matched)
    simp only [quotedFrom_append, hrun]
    exact ((telltale_adaptCall hn ht matched hq).append hrest).congr (leavesQuoted_call hone).symm

/-- **The rule leaves what is quoted alone** exactly if none of its edits finds anything in what is quoted of a call. -/
theorem telltale_apply (hn : ∀ name ∈ needs.aggregateFunction, Flat name.toList)
    (ht : ∀ name ∈ needs.aggregateFunction, traces callName < traces name.toList) (sql : Fragment) :
    Telltale (active needs = true → LeavesQuoted needs .outside sql) (quotedText sql)
      (quotedText (apply needs sql)) := by
  unfold apply
  cases h : active needs with
  | false => exact .refl (by intro hf; cases hf) _
  | true => exact (telltale_replaceFrom hn ht none sql .outside trivial).congr ⟨fun h _ => h, fun h => h rfl⟩

end SqlDialects.Aggregate
