/-
What adapting calls changes: a text is left alone exactly if no edit finds anything in its calls, and otherwise the rule
leaves traces.

- `Settled`: nothing is left to edit in any call.
- `advances_apply`: the rule advances the text unless it is settled.
-/
import SqlDialects.Proofs.Aggregate.Calls
import SqlDialects.Proofs.Reading.Order

namespace SqlDialects.Aggregate

open Text Fragment

/-- no edit that the dialect asks for finds anything in a call -/
def Settled (needs : Capabilities) (text : Fragment) : Prop :=
  EachCall (fun _ call => ∀ edit ∈ edits needs, NoMatch edit none call) text

variable {needs : Capabilities}

theorem settled_cons {c : Char} {rest : Fragment} (h : callAt? (c :: rest) = none) :
    Settled needs (c :: rest) ↔ Settled needs rest := eachCall_cons h

theorem settled_call {call rest : Fragment} (h : OneLineCall call rest) :
    Settled needs (call ++ rest) ↔ (∀ edit ∈ edits needs, NoMatch edit none call) ∧ Settled needs rest := by
  refine eachCall_call h fun front tail hsplit hcall edit hedit => ?_
  have hno := hcall edit hedit
  rw [hsplit] at hno
  exact (noMatch_before hedit).1 hno.behind

/-- where no call is found nothing is left to edit -/
theorem settled_of_noMatch {text : Fragment} (h : NoMatch (call needs) none text) : Settled needs text := by
  rintro front rest found rfl hcall
  cases rest with
  | nil => cases hcall
  | cons c rest =>
    have hnone := h.behind.1
    rw [call, hcall] at hnone
    cases hnone

theorem telltale_call (ht : ∀ name ∈ needs.aggregateFunction, traces callName < traces name.toList) (call : Fragment) :
    Telltale (∀ edit ∈ edits needs, NoMatch edit none call) call (adaptCall needs call) := by
  rw [adaptCall_eq_foldl]
  exact telltale_foldl id (fun _ he call =>
    (telling_of_mem_edits ht he).telltale (covers_of_mem_edits he) none call) call

theorem telltale_replaceAll (ht : ∀ name ∈ needs.aggregateFunction, traces callName < traces name.toList)
    (sql : Fragment) : Telltale (Settled needs sql) sql (replaceAll (call needs) sql) := by
  refine replaceFrom_induction (covers_call needs) (motive := fun _ text out => Telltale (Settled needs text) text out)
    ?nil ?keep ?replace none sql
  case nil => intro _; exact .refl (eachCall_nil _) []
  case keep =>
    intro _ c rest out hnone ih
    exact (ih.cons c).congr (settled_cons (Option.map_eq_none_iff.1 hnone)).symm
  case replace =>
    intro _ found rest out hfound ih
    obtain ⟨matched, hcall, rfl⟩ := Option.map_eq_some_iff.1 hfound
    obtain ⟨rest', htext, hone⟩ := callAt?_eq_some_iff.1 hcall
    obtain rfl := List.append_cancel_left htext
    exact ((telltale_call ht matched).append ih).congr (settled_call hone).symm

theorem parens_adaptCall (hn : ∀ name ∈ needs.aggregateFunction, Flat name.toList) (call : Fragment) :
    parens (adaptCall needs call) = parens call := by
  rw [adaptCall_eq_foldl]
  exact parens_foldl (fun _ he => gentle_of_mem_edits hn he) call

/-- **The rule advances a text** unless nothing is left to edit in its calls. -/
theorem advances_apply (hn : ∀ name ∈ needs.aggregateFunction, Flat name.toList)
    (ht : ∀ name ∈ needs.aggregateFunction, traces callName < traces name.toList) (sql : Fragment) :
    Advances (active needs = true → Settled needs sql) sql (apply needs sql) := by
  unfold apply
  cases h : active needs with
  | false => exact .refl (by intro hf; cases hf) sql
  | true =>
    have hparens : parens (replaceAll (call needs) sql) = parens sql := by
      refine parens_replaceFrom (covers_call needs) (fun before text found hfound => ?_) none sql
      obtain ⟨matched, -, rfl⟩ := Option.map_eq_some_iff.1 hfound
      exact (parens_adaptCall hn matched).symm
    exact ((telltale_replaceAll ht sql).advances hparens).congr ⟨fun h _ => h, fun h => h rfl⟩

end SqlDialects.Aggregate
