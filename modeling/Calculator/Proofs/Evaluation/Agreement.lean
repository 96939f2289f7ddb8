import Calculator.Evaluation.Expression
import Calculator.Proofs.Binary64.Zero
import Calculator.Proofs.Expression.Induction

/-!
# Results that agree

Two evaluations agree if their values compare equal, or are both undefined, or if they fail for
the same reason. Every operator but the power gives results that agree for operands that agree, and
the power does so for most exponents.
-/

namespace Calculator

open Binary64 (Agree IgnoresSign)

/-- Results of evaluations that agree: values that do, or the same failure. -/
inductive SameResult : Except (EvalError Float) Float → Except (EvalError Float) Float → Prop
  | value {x y : Float} (h : Agree x y) : SameResult (.ok x) (.ok y)
  | failure (err : EvalError Float) : SameResult (.error err) (.error err)

instance SameResult.decidable : (r s : Except (EvalError Float) Float) → Decidable (SameResult r s)
  | .ok x, .ok y => decidable_of_iff (Agree x y) ⟨.value, fun | .value h => h⟩
  | .error err, .error err' =>
    decidable_of_iff (err = err') ⟨fun h => h ▸ .failure err, fun | .failure _ => rfl⟩
  | .ok _, .error _ => .isFalse nofun
  | .error _, .ok _ => .isFalse nofun

/-- Every result agrees with itself. -/
theorem SameResult.refl (r : Except (EvalError Float) Float) : SameResult r r := by
  cases r with
  | ok x => exact .value (.refl x)
  | error err => exact .failure err

/-- What agrees with a result agrees with what that agrees with. -/
theorem SameResult.trans {r s t : Except (EvalError Float) Float} (hrs : SameResult r s)
    (hst : SameResult s t) : SameResult r t := by
  cases hrs with
  | value hxy =>
    cases hst with
    | value hyz => exact .value (hxy.trans hyz)
  | failure => exact hst

/-- Two steps that agree, whenever what they are given agrees, agree as a whole. -/
theorem SameResult.bind {r s r' s' : Except (EvalError Float) Float}
    {f f' : Float → Float → Except (EvalError Float) Float} (hr : SameResult r r')
    (hs : SameResult s s') (hf : ∀ x y x' y', r = .ok x → s = .ok y → r' = .ok x' → s' = .ok y' →
      Agree x x' → Agree y y' → SameResult (f x y) (f' x' y')) :
    SameResult (r >>= fun x => s >>= f x) (r' >>= fun x => s' >>= f' x) := by
  cases hr with
  | failure err => exact .failure err
  | @value x x' hx =>
    cases hs with
    | failure err => exact .failure err
    | @value y y' hy => exact hf x y x' y' rfl rfl rfl rfl hx hy

/-- A step that agrees, whenever the values it is given agree, agrees after evaluations that do. -/
theorem SameResult.mapM_bind {α : Type} {f g : α → Except (EvalError Float) Float}
    {next next' : List Float → Except (EvalError Float) Float} {as bs : List α}
    (h : List.Forall₂ (fun a b => SameResult (f a) (g b)) as bs)
    (hnext : ∀ xs ys, List.Forall₂ Agree xs ys → SameResult (next xs) (next' ys)) :
    SameResult (as.mapM f >>= next) (bs.mapM g >>= next') := by
  induction h generalizing next next' with
  | nil => exact hnext [] [] .nil
  | @cons a b as bs hab _ ih =>
    have hcons (f : α → Except (EvalError Float) Float) (a : α) (as : List α)
        (next : List Float → Except (EvalError Float) Float) :
        (a :: as).mapM f >>= next = f a >>= fun x => as.mapM f >>= fun xs => next (x :: xs) := by
      simp [List.mapM_cons, bind_assoc]
    rw [hcons, hcons]
    generalize f a = r, g b = r' at hab
    cases hab with
    | failure err => exact .failure err
    | value hxy => exact ih fun xs ys hxys => hnext _ _ (.cons hxy hxys)

/-- A function whose results agree for arguments that do. -/
def NamedFunction.IgnoresSigns (f : NamedFunction) : Prop :=
  ∀ xs ys, List.Forall₂ Agree xs ys → SameResult (f.apply xs) (f.apply ys)

/-- An operator gives results that agree for operands that do. The base of a power has to be the
same unless the exponent does not tell the two zeros apart. -/
theorem Operator.apply_agree {op : Operator} {x y x' y' : Float} (hx : Agree x x')
    (hy : Agree y y') (hpow : op = .pow → x = x' ∨ IgnoresSign y) :
    SameResult (op.apply x y) (op.apply x' y') := by
  cases op with
  | add => exact .value (hx.add hy)
  | sub => exact .value (hx.sub hy)
  | mul => exact .value (hx.mul hy)
  | div =>
    rw [apply, apply, ← hy.beq_zero_eq]
    split
    · exact .failure _
    · next hne => exact .value (hx.div hy (eq_false_of_ne_true hne))
  | mod =>
    rw [apply, apply, ← hy.beq_zero_eq]
    split
    · exact .failure _
    · next hne => exact .value (hx.modulo hy (eq_false_of_ne_true hne))
  | pow =>
    have hexponent : Binary64.pow x' y = Binary64.pow x' y' := hy.pow_eq x'
    have hbase : Agree (Binary64.pow x y) (Binary64.pow x' y) := by
      obtain rfl | hsign := hpow rfl
      · exact .refl _
      · exact hx.pow hsign
    rw [hexponent] at hbase
    exact .value hbase
  | factorial =>
    obtain rfl | ⟨hzero, hzero'⟩ := Binary64.agree_iff.1 hx
    · exact .refl _
    · have hvalue {x : Float} (h : (x == 0) = true) (y : Float) :
          factorial.apply x y = .ok (Binary64.factorial 0) := by
        have hnatural := Binary64.natural?_of_beq_zero h
        simp [apply, Primitives.isNatural, Primitives.factorial, hnatural]
      rw [hvalue hzero, hvalue hzero']
      exact .refl _

end Calculator
