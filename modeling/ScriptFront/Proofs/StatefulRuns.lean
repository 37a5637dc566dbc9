/-
Computations that carry a state and may fail.

A fault ends a computation and leaves the state as it was when the fault occurred, with all
that had been changed by then. So a computation is followed step by step: each lemma takes
what the first step comes to and says how the whole goes on from there.
-/

set_option autoImplicit false

namespace ScriptFront

section Runs

variable {σ ε α β : Type} {x : ExceptT ε (StateM σ) α} {f : α → ExceptT ε (StateM σ) β}
  {s s' : σ}

/-- After a step that succeeds the rest runs from the state it leaves. -/
theorem run_bind_of_ok {a : α} (h : x.run s = (.ok a, s')) :
    (x >>= f).run s = (f a).run s' := by
  have hbind : (x >>= f).run s = ExceptT.bindCont f (x.run s).1 (x.run s).2 := rfl
  rw [hbind, h]
  rfl

/-- After a step that fails nothing else runs. -/
theorem run_bind_of_error {e : ε} (h : x.run s = (.error e, s')) :
    (x >>= f).run s = (.error e, s') := by
  have hbind : (x >>= f).run s = ExceptT.bindCont f (x.run s).1 (x.run s).2 := rfl
  rw [hbind, h]
  rfl

/-- A step that succeeds needs no handler. -/
theorem run_tryCatch_of_ok {a : α} {handle : ε → ExceptT ε (StateM σ) α}
    (h : x.run s = (.ok a, s')) : (tryCatch x handle).run s = (.ok a, s') := by
  dsimp only [tryCatch, tryCatchThe, MonadExceptOf.tryCatch, ExceptT.tryCatch, ExceptT.run,
    ExceptT.mk, bind, StateT.bind] at h ⊢
  rw [h]
  rfl

/-- A step that fails is handled in the state it leaves. -/
theorem run_tryCatch_of_error {e : ε} {handle : ε → ExceptT ε (StateM σ) α}
    (h : x.run s = (.error e, s')) : (tryCatch x handle).run s = (handle e).run s' := by
  dsimp only [tryCatch, tryCatchThe, MonadExceptOf.tryCatch, ExceptT.tryCatch, ExceptT.run,
    ExceptT.mk, bind, StateT.bind] at h ⊢
  rw [h]

theorem run_bind_of_eq {y : StateM σ α} {g : α → StateM σ β} {a : α} (h : y.run s = (a, s')) :
    (y >>= g).run s = (g a).run s' := by
  change (g (y.run s).1).run (y.run s).2 = _
  rw [h]

theorem run_bind_lift {y : StateM σ α} {a : α} (h : y.run s = (a, s')) :
    ((y : ExceptT ε (StateM σ) α) >>= f).run s = (f a).run s' := by
  change (f (y.run s).1).run (y.run s).2 = _
  rw [h]

theorem run_adapt_of_eq {ε' : Type} (g : ε → ε') {result : Except ε α}
    (h : x.run s = (result, s')) : (ExceptT.adapt g x).run s = (result.mapError g, s') := by
  change ((x.run s).1.mapError g, (x.run s).2) = _
  rw [h]

end Runs

end ScriptFront
