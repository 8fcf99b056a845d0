import ExperienceCurves.Formula.Evaluation

/-!
Chains of operations. The evaluation walks along the left operands of a chain instead of nesting
with them. It still gives every operation the values of its left operand and of its right operand,
in this order, before the operation itself, so that it agrees with the plain recursion over the
tree in every value and in every failure.
-/
namespace ExperienceCurves.Formula.Expr

/-- To show something of all trees, show it of every tree whose parts have it. -/
@[elab_as_elim]
theorem byParts {motive : Expr → Prop} (number : ∀ x, motive (.number x))
    (named : ∀ v, motive (.named v)) (neg : ∀ operand, motive operand → motive (.neg operand))
    (binary : ∀ op left right, motive left → motive right → motive (.binary op left right))
    (call : ∀ f args, (∀ arg ∈ args, motive arg) → motive (.call f args)) :
    ∀ tree, motive tree
  | .number x => number x
  | .named v => named v
  | .neg operand => neg operand (byParts number named neg binary call operand)
  | .binary op left right =>
      binary op left right (byParts number named neg binary call left)
        (byParts number named neg binary call right)
  | .call f args => call f args fun arg _ => byParts number named neg binary call arg

variable (bindings : Bindings) (formula : String)

theorem spineFrom_append (steps more : List (Operator × Expr)) (tree : Expr) :
    spineFrom (steps ++ more) tree =
      ((spineFrom steps tree).1, (spineFrom steps tree).2 ++ more) := by
  fun_induction spineFrom steps tree with
  | case1 steps left right => simp [spineFrom]
  | case2 steps op left right hop ih => rw [spineFrom, if_neg hop, ← ih, List.cons_append]
  | case3 steps head hhead => rw [spineFrom.eq_2 _ _ hhead]

variable {bindings formula} in
@[simp] theorem carry_nil (x : Binary64) : carry bindings formula x [] = .ok x := by
  rw [carry]

theorem carry_single (x : Binary64) (op : Operator) (right : Expr) :
    carry bindings formula x [(op, right)] =
      value bindings formula right >>= fun y => op.apply formula x y := by
  rw [carry]
  simp only [carry_nil]
  exact congrArg _ (funext fun y => bind_pure _)

theorem carry_append (x : Binary64) (steps more : List (Operator × Expr)) :
    carry bindings formula x (steps ++ more) =
      carry bindings formula x steps >>= fun y => carry bindings formula y more := by
  induction steps generalizing x with
  | nil => simp [bind, Except.bind]
  | cons step rest ih =>
    obtain ⟨op, right⟩ := step
    rw [List.cons_append, carry, carry]
    simp only [ih, bind_assoc]

/-- A tree has the value that its chain carries from the first operand to the end. -/
theorem value_eq_carry (tree : Expr) : value bindings formula tree =
    value bindings formula (spineFrom [] tree).1 >>= fun x =>
      carry bindings formula x (spineFrom [] tree).2 := by
  by_cases hchain : ∃ op left right, tree = .binary op left right ∧ op ≠ .power
  · obtain ⟨op, left, right, rfl, hop⟩ := hchain
    rw [value.eq_5 _ _ _ _ _ hop, spineFrom, if_neg hop]
  · have hhead : spineFrom [] tree = (tree, []) := by
      fun_cases spineFrom [] tree with
      | case1 left right => rfl
      | case2 op left right hop => exact absurd ⟨op, left, right, rfl, hop⟩ hchain
      | case3 => rfl
    simp only [hhead, carry_nil]
    exact (bind_pure _).symm

variable {bindings formula}

theorem value_neg (operand : Expr) : value bindings formula (.neg operand) =
    value bindings formula operand >>= fun x => .ok (-x) := by
  rw [value]
  rfl

theorem value_call (f : Function) (args : List Expr) : value bindings formula (.call f args) =
    values bindings formula args >>= fun xs => f.apply formula xs := by
  rw [value]

/-- Every operation is applied to the values of its operands, the left one first, whether it stands
in a chain or not. -/
theorem value_binary (op : Operator) (left right : Expr) :
    value bindings formula (.binary op left right) =
      value bindings formula left >>= fun x =>
        value bindings formula right >>= fun y => op.apply formula x y := by
  by_cases hop : op = .power
  · subst hop
    rw [value]
  · have hspine := spineFrom_append [] [(op, right)] left
    rw [List.nil_append] at hspine
    rw [value.eq_5 _ _ _ _ _ hop, hspine, value_eq_carry bindings formula left]
    simp only [carry_append, carry_single, bind_assoc]

mutual

/-- The value by recursion over the tree alone: at every operation the value of the left operand is
taken, then that of the right operand, and then the operation is applied. -/
def plainValue (bindings : Bindings) (formula : String) : Expr → Outcome Binary64
  | number x => .ok x
  | named v =>
      match bindings.value? v with
      | some given => given.toBinary64
      | none => .error (.formula (.malformed (.unbound v.name) formula none))
  | neg operand => do
      let x ← plainValue bindings formula operand
      return -x
  | binary op left right => do
      let x ← plainValue bindings formula left
      let y ← plainValue bindings formula right
      op.apply formula x y
  | call f args => do
      let xs ← plainValues bindings formula args
      f.apply formula xs

def plainValues (bindings : Bindings) (formula : String) : List Expr → Outcome (List Binary64)
  | [] => .ok []
  | arg :: rest => do
      let x ← plainValue bindings formula arg
      let xs ← plainValues bindings formula rest
      return x :: xs

end

theorem values_eq_plainValues {args : List Expr}
    (h : ∀ arg ∈ args, value bindings formula arg = plainValue bindings formula arg) :
    values bindings formula args = plainValues bindings formula args := by
  induction args with
  | nil => rw [values, plainValues]
  | cons arg rest ih =>
    rw [values, plainValues, h arg List.mem_cons_self,
      ih fun arg harg => h arg (List.mem_cons_of_mem _ harg)]

/-- The walk along chains gives every tree, under any bindings, the value or the failure that the
plain recursion gives it. -/
theorem value_eq_plainValue (bindings : Bindings) (formula : String) (tree : Expr) :
    value bindings formula tree = plainValue bindings formula tree := by
  induction tree using byParts with
  | number x => rw [value, plainValue]
  | named v =>
    cases hv : bindings.value? v with
    | none => simp only [value, plainValue, hv]
    | some given => simp only [value, plainValue, hv]
  | neg operand ih =>
    rw [value_neg, plainValue, ih]
    rfl
  | binary op left right ihleft ihright => rw [value_binary, plainValue, ihleft, ihright]
  | call f args ih => rw [value_call, plainValue, values_eq_plainValues ih]

end ExperienceCurves.Formula.Expr
