import MediaBackup.Server.Runs
import MediaBackup.Framework.Traces

/-!
# The reconciliation pass among other calls

The list of uploads is read once and walked slowly while other calls come and go. What stops the
pass short of its end is the query that precedes each upload: it wants a row.
-/

namespace MediaBackup

open Call Prog

abbrev ServerMoment := Moment Site Choice Server

/-- No step failed, and the rows were valid throughout. -/
def Undisturbed (steps : List ServerMoment) : Prop :=
  ∀ m ∈ steps, m.choice.fault = .none ∧ m.state.Valid

theorem Undisturbed.left {first rest : List ServerMoment} (h : Undisturbed (first ++ rest)) :
    Undisturbed first := fun m hm => h m (List.mem_append_left _ hm)

theorem Undisturbed.right {first rest : List ServerMoment} (h : Undisturbed (first ++ rest)) :
    Undisturbed rest := fun m hm => h m (List.mem_append_right _ hm)

section

variable {α : Type} {steps : List ServerMoment}

end

/-! ## The uploads -/

section

variable [Blake3] {thread : Nat} {steps : List ServerMoment}

end

/-! ## An upload that vanishes -/

section

open Sample

end

end MediaBackup
