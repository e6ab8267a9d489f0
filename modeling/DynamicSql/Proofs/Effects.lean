/-!
Programs that may fail, alone or over a state that stays as it is where they stop. Each primitive
has one equation for its outcome and the state that it leaves behind; a sequence of steps is taken
apart by `exec_bind` or, where it succeeds, by `exec_bind_ok`.
-/

namespace DynamicSql

variable {ε σ α β : Type}

theorem ok_bind (a : α) (f : α → Except ε β) : (.ok a : Except ε α) >>= f = f a := rfl

theorem bind_eq_ok {x : Except ε α} {f : α → Except ε β} {b : β} :
    x >>= f = .ok b ↔ ∃ a, x = .ok a ∧ f a = .ok b := by
  refine ⟨?_, ?_⟩
  · intro h
    cases x with
    | error e => cases h
    | ok a => exact ⟨a, rfl, h⟩
  · rintro ⟨a, rfl, h⟩
    exact h

theorem bind_eq_error {x : Except ε α} {f : α → Except ε β} {e : ε} :
    x >>= f = .error e ↔ x = .error e ∨ ∃ a, x = .ok a ∧ f a = .error e := by
  cases x with
  | error e' => simp [bind, Except.bind]
  | ok a => simp [bind, Except.bind]

theorem map_eq_ok {x : Except ε α} {f : α → β} {b : β} :
    x.map f = .ok b ↔ ∃ a, x = .ok a ∧ f a = b := by
  cases x with
  | error e => simp [Except.map]
  | ok a => simp [Except.map]

theorem map_eq_bind (x : Except ε α) (f : α → β) : x.map f = do return f (← x) := by
  cases x with
  | error e => rfl
  | ok a => rfl

def exec (m : ExceptT ε (StateM σ) α) (s : σ) : Except ε α × σ :=
  m.run s

@[simp] theorem exec_pure (a : α) (s : σ) :
    exec (pure a : ExceptT ε (StateM σ) α) s = (.ok a, s) := rfl

@[simp] theorem exec_throw (e : ε) (s : σ) :
    exec (throw e : ExceptT ε (StateM σ) α) s = (.error e, s) := rfl

@[simp] theorem exec_get (s : σ) : exec (get : ExceptT ε (StateM σ) σ) s = (.ok s, s) := rfl

@[simp] theorem exec_set (s t : σ) :
    exec (set t : ExceptT ε (StateM σ) PUnit) s = (.ok ⟨⟩, t) := rfl

@[simp] theorem exec_liftExcept (x : Except ε α) (s : σ) :
    exec (liftExcept x : ExceptT ε (StateM σ) α) s = (x, s) := by
  cases x <;> rfl

theorem exec_bind (m : ExceptT ε (StateM σ) α) (f : α → ExceptT ε (StateM σ) β) (s : σ) :
    exec (m >>= f) s =
      match exec m s with
      | (.ok a, t) => exec (f a) t
      | (.error e, t) => (.error e, t) := by
  have hbind : exec (m >>= f) s = ExceptT.bindCont f (exec m s).1 (exec m s).2 := rfl
  rw [hbind]
  cases exec m s with
  | mk r t => cases r <;> rfl

theorem exec_bind_ok {m : ExceptT ε (StateM σ) α} {f : α → ExceptT ε (StateM σ) β} {s t : σ}
    {b : β} :
    exec (m >>= f) s = (.ok b, t) ↔
      ∃ a u, exec m s = (.ok a, u) ∧ exec (f a) u = (.ok b, t) := by
  rw [exec_bind]
  cases exec m s with
  | mk r u =>
    cases r with
    | error e => simp
    | ok a =>
      refine ⟨fun h => ⟨a, u, rfl, h⟩, ?_⟩
      intro ⟨_, _, hm, hf⟩
      cases hm
      exact hf

theorem exec_bind_error {m : ExceptT ε (StateM σ) α} {f : α → ExceptT ε (StateM σ) β} {s t : σ}
    {e : ε} :
    exec (m >>= f) s = (.error e, t) ↔
      exec m s = (.error e, t) ∨ ∃ a u, exec m s = (.ok a, u) ∧ exec (f a) u = (.error e, t) := by
  rw [exec_bind]
  cases exec m s with
  | mk r u =>
    cases r with
    | error e' => simp
    | ok a =>
      refine ⟨fun h => .inr ⟨a, u, rfl, h⟩, ?_⟩
      rintro (h | ⟨_, _, hm, hf⟩)
      · cases h
      · cases hm
        exact hf

end DynamicSql
