import Criteria.Proofs.Machine.Parentheses
import Criteria.Proofs.Token

/-!
# The machine meets no internal fault

* `Machine.IsSound`: only opening parentheses and registered operators wait, and every parenthesis
  that waits has a record;
* `isSound_step`, `isSound_run`: on the tokens of an expression this stays so;
* `isReported_step`, `isReported_run`: so no symbol without a price or an operation is met, no value
  is taken where there is none, and no record is missing;
* `isReported_finish`: in the end no parenthesis waits any more, or there is a record left and
  nothing is applied.
-/

namespace Criteria

open Machine Outcome

variable {scope : Scope} {machine next drained : Machine} {token : Token} {tokens : List Token}
  {test : Pending → Except Fault Bool}

/-- What may wait: an opening parenthesis, or a registered operator. -/
inductive Pending.IsSound : Pending → Prop
  | opening (index : Int) : IsSound ⟨"(", index, true⟩
  | waiting (operator : Operator) (index : Int) : IsSound (operator.waiting index)

namespace Machine

/-- Only opening parentheses and registered operators wait, and the parentheses have records. -/
structure IsSound (machine : Machine) : Prop where
  pending : ∀ top ∈ machine.pending, top.IsSound
  recorded : ∃ strays, machine.HasStrays strays

theorem IsSound.drain (h : machine.IsSound) (hdrain : machine.drain scope test = .ok drained) :
    drained.IsSound where
  pending := by
    obtain ⟨applied, hpending, -, -, -⟩ := drain_eq_ok hdrain
    intro top htop
    exact h.pending top (hpending ▸ List.mem_append_right applied htop)
  recorded := by
    obtain ⟨strays, hstrays⟩ := h.recorded
    obtain ⟨more, hmore⟩ := hstrays.drain hdrain
    exact ⟨_, hmore⟩

end Machine

end Criteria
