import ConstPromotion.Proofs.Attempt

/-!
# Worlds that remember their files

An attempt that works on every state with a world can be run on a world that remembers each file
system it went through (`Recorded`). Such a run comes to what the run on the world alone comes to
(`Attempt.Erases`), so its history tells what happened to the files in between.
-/

namespace ConstPromotion

/-- A world, with the file systems that took the place of one another in it. What an action does to
the world as a whole is not remembered. -/
structure Recorded where
  world : World
  history : List FileSystem

instance : HasWorld Recorded where
  files s := s.world.fs
  withFiles s fs := ⟨{ s.world with fs }, s.history ++ [fs]⟩
  world := Recorded.world
  withWorld s world := { s with world }

namespace Attempt

variable {ε ε' α β : Type}

lemma run_onWorld_recorded (a : Action ε α) (s : Recorded) :
    (a.onWorld : Attempt Recorded ε α).run.run s =
      ((a.run.run s.world).1, { s with world := (a.run.run s.world).2 }) := rfl

/-- An attempt comes to the same on a world and on one with a history. -/
def Erases (a : Attempt Recorded ε α) (b : Action ε α) : Prop :=
  ∀ s, b.run.run s.world = ((a.run.run s).1, (a.run.run s).2.world)

namespace Erases

lemma pure (x : α) : Erases (pure x : Attempt Recorded ε α) (Pure.pure x) := fun _ => rfl

lemma throw (e : ε) : Erases (throw e : Attempt Recorded ε α) (MonadExcept.throw e) := fun _ => rfl

lemma bind {a : Attempt Recorded ε α} {b : Action ε α} {f : α → Attempt Recorded ε β}
    {g : α → Action ε β} (hab : Erases a b) (hfg : ∀ x, Erases (f x) (g x)) :
    Erases (a >>= f) (b >>= g) := by
  intro s
  rw [run_bind, run_bind, hab s]
  rcases a.run.run s with ⟨_ | x, t⟩
  · rfl
  · exact hfg x t

lemma wrapping {a : Attempt Recorded ε α} {b : Action ε α} (h : Erases a b) (wrap : ε → ε') :
    Erases (a.wrapping wrap) (b.wrapping wrap) := by
  intro s
  rw [run_wrapping, run_wrapping, h s]

lemma outcome {a : Attempt Recorded ε α} {b : Action ε α} (h : Erases a b) :
    Erases (a.outcome : Attempt Recorded ε' (Except ε α)) b.outcome := by
  intro s
  rw [run_outcome, run_outcome, h s]

lemma settle {a : Attempt Recorded ε α} {b : Action ε α} (h : Erases a b) :
    Erases (a.settle : Attempt Recorded ε' Unit) b.settle := by
  intro s
  rw [run_settle, run_settle, h s]

lemma onWorld (a : Action ε α) : Erases (a.onWorld : Attempt Recorded ε α) a.onWorld :=
  fun _ => rfl

lemma query (ask : FileSystem → α) :
    Erases (Attempt.query ask : Attempt Recorded ε α) (Attempt.query ask) := fun _ => rfl

lemma inspect (ask : FileSystem → Except OsError α) :
    Erases (Attempt.inspect ask : Attempt Recorded OsError α) (Attempt.inspect ask) := by
  intro s
  rw [run_inspect, run_inspect]
  rfl

lemma change (act : FileSystem → Except OsError FileSystem) :
    Erases (Attempt.change act : Attempt Recorded OsError Unit) (Attempt.change act) := by
  intro s
  rw [run_change, run_change]
  simp only [HasFiles.files, HasFiles.withFiles]
  cases act s.world.fs <;> rfl

end Erases

end Attempt

end ConstPromotion
