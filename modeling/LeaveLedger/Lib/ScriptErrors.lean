import LeaveLedger.Lib.Script

/-!
# Lib — Scripts that throw

The counterpart of `Script.Returns` for the failing runs: a script throws
when its first part does, or when its first part returns and what comes
after it throws.
-/

namespace LeaveLedger.Lib

namespace Script

variable {S : Sig} {ε α β σ : Type} {exec : (o : S.Op) → σ → Option (S.Res o × σ)}
  {p : Script S ε α} {f : α → Script S ε β} {s s' s'' : σ} {e : ε}

/-- Run to its end by `exec` from `s`, the script throws `e` and leaves `s'`. -/
def Throws (exec : (o : S.Op) → σ → Option (S.Res o × σ)) (p : Script S ε α) (s : σ) (e : ε)
    (s' : σ) : Prop :=
  p.run exec s = some (.error e, s')

theorem throws_fail : (fail e : Script S ε α).Throws exec s e s := rfl

theorem Throws.bind (h : p.Throws exec s e s') : (p.bind f).Throws exec s e s' := by
  unfold Throws at h ⊢
  rw [run_bind, h]
  rfl

/-- What comes after a part that returns throws. -/
theorem Returns.throws {a : α} (h : p.Returns exec s a s') (hf : (f a).Throws exec s' e s'') :
    (p.bind f).Throws exec s e s'' := by
  unfold Returns at h
  unfold Throws at hf ⊢
  rw [run_bind, h]
  exact hf

end Script

end LeaveLedger.Lib
