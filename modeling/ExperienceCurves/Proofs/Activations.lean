import ExperienceCurves.Proofs.Chains
import ExperienceCurves.Proofs.Reading

/-!
Activations of the evaluation. Each operand of a sign, a power or a call is evaluated by an
activation of its own inside the one of the operation, while the walk along a chain starts them only
for its first operand and for the right operands. So a level of nesting that the reader counts
costs at most four activations: a formula that is read never nests more of them than four times the
levels that it may nest, however high its tree is.
-/
namespace ExperienceCurves.Formula

namespace Expr

mutual

/-- How many activations of the evaluation are nested at most while a tree is evaluated. -/
def activations : Expr → Nat
  | number _ => 1
  | named _ => 1
  | neg operand => activations operand + 1
  | binary .power left right => max (activations left) (activations right) + 1
  | binary op left right =>
      max (activations (spineFrom [(op, right)] left).1)
        (stepActivations (spineFrom [(op, right)] left).2) + 1
  | call _ args => argActivations args + 1
termination_by tree => sizeOf tree
decreasing_by
  all_goals first
    | decreasing_tactic
    | have := weight_spineFrom_lt op left right; omega

/-- The largest count among the right operands in steps. -/
def stepActivations : List (Operator × Expr) → Nat
  | [] => 0
  | (_, right) :: rest => max (activations right) (stepActivations rest)
termination_by steps => weight steps
decreasing_by
  all_goals simp only [weight]; omega

/-- The largest count among arguments. -/
def argActivations : List Expr → Nat
  | [] => 0
  | arg :: rest => max (activations arg) (argActivations rest)
termination_by args => sizeOf args

end

mutual

/-- The number of trees on the longest way down from the root. -/
def height : Expr → Nat
  | number _ => 1
  | named _ => 1
  | neg operand => height operand + 1
  | binary _ left right => max (height left) (height right) + 1
  | call _ args => argHeight args + 1

def argHeight : List Expr → Nat
  | [] => 0
  | arg :: rest => max (height arg) (argHeight rest)

end

/-- The largest count among the operands of the chain that a tree ends, which may be the tree alone.
A chain that goes on from the tree starts activations for these operands, and for the tree none. -/
def reach (tree : Expr) : Nat :=
  max (activations (spineFrom [] tree).1) (stepActivations (spineFrom [] tree).2)

theorem stepActivations_append (steps more : List (Operator × Expr)) :
    stepActivations (steps ++ more) = max (stepActivations steps) (stepActivations more) := by
  induction steps with
  | nil => simp [stepActivations]
  | cons step rest ih =>
    obtain ⟨op, right⟩ := step
    simp only [List.cons_append, stepActivations, ih, Nat.max_assoc]

theorem argActivations_lt {args : List Expr} {bound : Nat} (hpos : 0 < bound)
    (h : ∀ arg ∈ args, activations arg < bound) : argActivations args < bound := by
  induction args with
  | nil => simpa only [argActivations] using hpos
  | cons arg rest ih =>
    simp only [List.forall_mem_cons] at h
    simp only [argActivations]
    have := ih h.2
    omega

theorem activations_pos (tree : Expr) : 0 < tree.activations := by
  cases tree with
  | binary op left right =>
    by_cases hop : op = .power
    · subst hop
      simp [activations]
    · simp [activations.eq_5 _ _ _ hop]
  | _ => simp [activations]

/-- An operation at the end of a chain nests its operands as those before it. -/
theorem reach_binary {op : Operator} (hop : op ≠ .power) (left right : Expr) :
    reach (.binary op left right) = max left.reach right.activations := by
  have hspine : spineFrom [] (.binary op left right) = spineFrom [(op, right)] left := by
    rw [spineFrom, if_neg hop]
  have happend := spineFrom_append [] [(op, right)] left
  rw [List.nil_append] at happend
  simp only [reach, hspine, happend, stepActivations_append, stepActivations, Nat.max_zero]
  omega

theorem activations_binary {op : Operator} (hop : op ≠ .power) (left right : Expr) :
    activations (.binary op left right) = max left.reach right.activations + 1 := by
  have hspine : spineFrom [] (.binary op left right) = spineFrom [(op, right)] left := by
    rw [spineFrom, if_neg hop]
  rw [← reach_binary hop, reach, hspine, activations.eq_5 _ _ _ hop]

/-- A tree that is no chain is its own first operand. -/
theorem activations_cases (tree : Expr) :
    tree.activations = tree.reach + 1 ∨ tree.activations = tree.reach := by
  by_cases hchain : ∃ op left right, tree = .binary op left right ∧ op ≠ .power
  · obtain ⟨op, left, right, rfl, hop⟩ := hchain
    left
    rw [activations_binary hop, reach_binary hop]
  · right
    have hhead : spineFrom [] tree = (tree, []) := by
      fun_cases spineFrom [] tree with
      | case1 left right => rfl
      | case2 op left right hop => exact absurd ⟨op, left, right, rfl, hop⟩ hchain
      | case3 => rfl
    simp only [reach, hhead, stepActivations, Nat.max_zero]

/-- What one activation does with a tree, given what the activations that it starts give. -/
def activate (bindings : Bindings) (formula : String) (inner : Expr → Outcome Binary64) :
    Expr → Outcome Binary64
  | number x => .ok x
  | named v =>
      match bindings.value? v with
      | some given => given.toBinary64
      | none => .error (.formula (.malformed (.unbound v.name) formula none))
  | neg operand => do
      let x ← inner operand
      return -x
  | binary .power left right => do
      let x ← inner left
      let y ← inner right
      Operator.power.apply formula x y
  | binary op left right => do
      let x ← inner (spineFrom [(op, right)] left).1
      (spineFrom [(op, right)] left).2.foldlM (fun x step => do
        let y ← inner step.2
        step.1.apply formula x y) x
  | call f args => do
      let xs ← args.mapM inner
      f.apply formula xs

/-- Evaluation by at most `depth` nested activations, inside which `beyond` takes over. -/
def valueWithin (bindings : Bindings) (formula : String) (beyond : Expr → Outcome Binary64) :
    Nat → Expr → Outcome Binary64
  | 0 => beyond
  | depth + 1 => activate bindings formula (valueWithin bindings formula beyond depth)

variable {bindings : Bindings} {formula : String} {inner : Expr → Outcome Binary64} {bound : Nat}

theorem foldlM_eq_carry (hinner : ∀ tree, activations tree ≤ bound →
      inner tree = value bindings formula tree) {steps : List (Operator × Expr)}
    (h : stepActivations steps ≤ bound) (x : Binary64) :
    steps.foldlM (fun x step => do
      let y ← inner step.2
      step.1.apply formula x y) x = carry bindings formula x steps := by
  induction steps generalizing x with
  | nil => rw [List.foldlM_nil, carry_nil]; rfl
  | cons step rest ih =>
    obtain ⟨op, right⟩ := step
    simp only [stepActivations] at h
    rw [List.foldlM_cons, carry, hinner right (by omega)]
    simp only [bind_assoc, ih (show stepActivations rest ≤ bound by omega)]

theorem mapM_eq_values (hinner : ∀ tree, activations tree ≤ bound →
      inner tree = value bindings formula tree) {args : List Expr}
    (h : argActivations args ≤ bound) : args.mapM inner = values bindings formula args := by
  induction args with
  | nil => rw [List.mapM_nil, values]; rfl
  | cons arg rest ih =>
    simp only [argActivations] at h
    rw [List.mapM_cons, values, hinner arg (by omega), ih (by omega)]

/-- An activation starts others only for trees that count fewer than its own. -/
theorem activate_eq_value (hinner : ∀ tree, activations tree ≤ bound →
      inner tree = value bindings formula tree) {tree : Expr} (h : activations tree ≤ bound + 1) :
    activate bindings formula inner tree = value bindings formula tree := by
  fun_cases activate bindings formula inner tree with
  | case1 x => rw [value]
  | case2 v given hgiven => rw [value, hgiven]
  | case3 v hgiven => rw [value, hgiven]
  | case4 operand =>
    simp only [activations] at h
    rw [value, hinner operand (by omega)]
  | case5 left right =>
    simp only [activations] at h
    rw [value, hinner left (by omega), hinner right (by omega)]
  | case6 op left right hop =>
    rw [activations.eq_5 _ _ _ hop] at h
    rw [value.eq_5 _ _ _ _ _ hop, hinner _ (by omega)]
    simp only [foldlM_eq_carry hinner (show stepActivations (spineFrom [(op, right)] left).2 ≤ bound
      by omega)]
  | case7 f args =>
    simp only [activations] at h
    rw [value, mapM_eq_values hinner (by omega)]

/-- As many activations as a tree counts are enough for its value. -/
theorem valueWithin_eq_value (beyond : Expr → Outcome Binary64) (depth : Nat) {tree : Expr}
    (h : activations tree ≤ depth) :
    valueWithin bindings formula beyond depth tree = value bindings formula tree := by
  induction depth generalizing tree with
  | zero => exact absurd h (Nat.not_le_of_gt (activations_pos tree))
  | succ depth ih => exact activate_eq_value (fun tree htree => ih htree) h

end Expr

/-- What a level of nesting costs in the parts of a formula. A chain of the looser rank has chains of
the other one as operands, so its operands may nest one activation more. -/
def Category.NestsWithin (levels : Nat) : (s : Category) → s.Tree → Prop
  | chain r, tree => tree.reach ≤ 4 * levels + (2 - r.strength)
  | tail r, tree => ∀ left : Expr, (tree left).reach ≤ max left.reach (4 * levels + (2 - r.strength))
  | operand r, tree => tree.activations ≤ 4 * levels + (2 - r.strength)
  | unary, tree | power, tree => tree.activations ≤ 4 * levels + 1
  | primary, tree => tree.activations ≤ max 1 (4 * levels)
  | others, args => ∀ arg ∈ args, arg.activations < 4 * levels

theorem Derivation.nestsWithin {Bare : Prop} {s : Category} (d : Derivation Bare s) {levels : Nat}
    (h : d.nesting ≤ levels) : s.NestsWithin levels d.tree := by
  induction d generalizing levels with
  | @chain r head tail ihhead ihtail =>
    simp only [nesting] at h
    have hhead : head.tree.activations ≤ 4 * levels + (2 - r.strength) := ihhead (by omega)
    have htail : (Category.tail r).NestsWithin levels tail.tree := ihtail (by omega)
    have hreach := htail head.tree
    have := head.tree.activations_cases
    simp only [Category.NestsWithin, tree]
    omega
  | stop => exact fun left => Nat.le_max_left _ _
  | @more r op hop right tail ihright ihtail =>
    intro left
    simp only [nesting] at h
    have hright : right.tree.activations ≤ 4 * levels + (2 - r.strength) := ihright (by omega)
    have htail : (Category.tail r).NestsWithin levels tail.tree := ihtail (by omega)
    have hreach := htail (.binary op left right.tree)
    have hpower : op ≠ .power := by
      rintro rfl
      cases r <;> cases hop
    rw [Expr.reach_binary hpower] at hreach
    simp only [tree]
    omega
  | term operand ih =>
    have hreach : operand.tree.reach ≤ 4 * levels + 1 := ih h
    have := operand.tree.activations_cases
    simp only [Category.NestsWithin, tree, Rank.strength]
    omega
  | factor operand ih => exact ih h
  | minus operand ih =>
    simp only [nesting] at h
    have hoperand : operand.tree.activations ≤ 4 * (levels - 1) + 1 := ih (by omega)
    simp only [Category.NestsWithin, tree, Expr.activations]
    omega
  | unsigned power ih => exact ih h
  | plain base ih =>
    have hbase : base.tree.activations ≤ max 1 (4 * levels) := ih h
    simp only [Category.NestsWithin, tree]
    omega
  | raised base exponent ihbase ihexponent =>
    simp only [nesting] at h
    have hbase : base.tree.activations ≤ max 1 (4 * levels) := ihbase (by omega)
    have hexponent : exponent.tree.activations ≤ 4 * (levels - 1) + 1 := ihexponent (by omega)
    simp only [Category.NestsWithin, tree, Expr.activations]
    omega
  | number literal x hx =>
    simp only [Category.NestsWithin, tree, Expr.activations]
    omega
  | named v =>
    simp only [Category.NestsWithin, tree, Expr.activations]
    omega
  | enclosed inner ih =>
    simp only [nesting] at h
    have hinner : inner.tree.reach ≤ 4 * (levels - 1) + 2 := ih (by omega)
    have := inner.tree.activations_cases
    simp only [Category.NestsWithin, tree]
    omega
  | bare hbare f =>
    simp only [Category.NestsWithin, tree, Expr.activations, Expr.argActivations]
    omega
  | call f first others ihfirst ihothers =>
    simp only [nesting] at h
    have hfirst : first.tree.reach ≤ 4 * (levels - 1) + 2 := ihfirst (by omega)
    have hothers : ∀ arg ∈ others.tree, arg.activations < 4 * levels := ihothers (by omega)
    have := first.tree.activations_cases
    have hargs : Expr.argActivations (first.tree :: others.tree) < 4 * levels :=
      Expr.argActivations_lt (by omega) (List.forall_mem_cons.2 ⟨by omega, hothers⟩)
    simp only [Category.NestsWithin, tree, Expr.activations]
    omega
  | close =>
    intro arg harg
    exact absurd harg List.not_mem_nil
  | another arg others iharg ihothers =>
    simp only [nesting] at h
    have harg : arg.tree.reach ≤ 4 * (levels - 1) + 2 := iharg (by omega)
    have hothers : ∀ arg ∈ others.tree, arg.activations < 4 * levels := ihothers (by omega)
    have := arg.tree.activations_cases
    exact List.forall_mem_cons.2 ⟨by omega, hothers⟩

theorem Expr.activations_le_of_ofTokens {tokens : List Token} {tree : Expr}
    (h : ofTokens tokens = .ok tree) : tree.activations ≤ 4 * deepestNesting := by
  obtain ⟨d, -, rfl, ⟨hlevels, -⟩, -⟩ := exists_derivation_of_ofTokens h
  have hreach : d.tree.reach ≤ 4 * d.nesting + 2 := d.nestsWithin (Nat.le_refl _)
  have := d.tree.activations_cases
  omega

namespace Derivation

/-- The level, added to what stands on the left so many times. -/
def levelsAdded : Nat → Derivation False (.tail .additive)
  | 0 => .stop
  | count + 1 =>
      .more .plus rfl (.term (.chain (.factor (.unsigned (.plain (.named .level)))) .stop))
        (levelsAdded count)

/-- A sum of levels. -/
def levelSum (count : Nat) : Derivation False .expression :=
  .chain (.term (.chain (.factor (.unsigned (.plain (.named .level)))) .stop)) (levelsAdded count)

theorem levelsAdded_flat (count : Nat) :
    (levelsAdded count).nesting = 0 ∧ (levelsAdded count).HasArity := by
  induction count with
  | zero => simp [levelsAdded, nesting, HasArity]
  | succ count ih => simp [levelsAdded, nesting, HasArity, ih]

theorem add_height_le (count : Nat) (left : Expr) :
    left.height + count ≤ ((levelsAdded count).tree left).height := by
  induction count generalizing left with
  | zero => exact Nat.le_refl _
  | succ count ih =>
    have hrest := ih (.binary .plus left (.named .level))
    simp only [Expr.height] at hrest
    simp only [levelsAdded, tree]
    omega

end Derivation

/-- A formula that nests nothing may have a tree of any height. -/
theorem Expr.exists_higher (bound : Nat) :
    ∃ tokens tree, ofTokens tokens = .ok tree ∧ bound < tree.height := by
  let d := Derivation.levelSum bound
  let tokens : List Token := d.lexemes.map fun lexeme => ⟨lexeme, 0⟩
  have hlexemes : d.lexemes = tokens.map Token.lexeme := by
    simp [tokens, Function.comp_def]
  have hfinish : ∀ token ∈ tokens, token.lexeme ≠ .finish := by
    intro token htoken
    obtain ⟨lexeme, hlexeme, rfl⟩ := List.mem_map.1 htoken
    exact fun hfinish => d.finish_notMem_lexemes (hfinish ▸ hlexeme)
  obtain ⟨hnesting, harity⟩ := Derivation.levelsAdded_flat bound
  have hflat : d.nesting = 0 ∧ d.HasArity := by
    simp [d, Derivation.levelSum, Derivation.nesting, Derivation.HasArity, hnesting, harity]
  have hread : ofTokens (tokens ++ [⟨.finish, 0⟩]) = .ok d.tree :=
    (ofTokens_eq_ok_iff hfinish d.tree).2
      ⟨d, hlexemes, rfl, hflat.2, by rw [Derivation.depth, hflat.1]; decide⟩
  have hheight : (Expr.named .level).height + bound ≤ d.tree.height :=
    Derivation.add_height_le bound (.named .level)
  simp only [Expr.height] at hheight
  exact ⟨_, _, hread, by omega⟩

/-- Every formula that is read is evaluated within four nested activations for each level of nesting
that it may have, so that what deeper ones would do makes no difference, and this although trees of
any height are read. -/
theorem Expr.activations_bounded :
    (∀ (tokens : List Token) (tree : Expr), ofTokens tokens = .ok tree →
      tree.activations ≤ 4 * deepestNesting ∧
        ∀ bindings formula beyond,
          valueWithin bindings formula beyond (4 * deepestNesting) tree =
            value bindings formula tree) ∧
      ∀ bound, ∃ tokens tree, ofTokens tokens = .ok tree ∧ bound < tree.height := by
  refine ⟨?_, exists_higher⟩
  intro tokens tree h
  have hle := activations_le_of_ofTokens h
  exact ⟨hle, fun bindings formula beyond => valueWithin_eq_value beyond _ hle⟩

/-- In `level - -MAX(level, size)^size - level * level` the walk saves the activation of the first
difference. -/
theorem Expr.activations_bounded_chain :
    let tokens : List Token := [⟨.named .level, 0⟩, ⟨.operator .minus, 6⟩, ⟨.operator .minus, 8⟩,
      ⟨.function .max, 9⟩, ⟨.opening, 12⟩, ⟨.named .level, 13⟩, ⟨.comma, 18⟩, ⟨.named .size, 20⟩,
      ⟨.closing, 24⟩, ⟨.operator .power, 25⟩, ⟨.named .size, 26⟩, ⟨.operator .minus, 31⟩,
      ⟨.named .level, 33⟩, ⟨.operator .times, 39⟩, ⟨.named .level, 41⟩, ⟨.finish, 46⟩]
    let tree : Expr := .binary .minus
      (.binary .minus (.named .level)
        (.neg (.binary .power (.call .max [.named .level, .named .size]) (.named .size))))
      (.binary .times (.named .level) (.named .level))
    ofTokens tokens = .ok tree ∧ tree.activations = 5 ∧ tree.height = 6 ∧
      tree.activations ≤ 4 * deepestNesting ∧
        ∀ bindings formula beyond,
          valueWithin bindings formula beyond (4 * deepestNesting) tree =
            value bindings formula tree := by
  intro tokens tree
  have hread : ofTokens tokens = .ok tree := rfl
  have hcount : tree.activations = 5 := by
    simp [tree, activations, argActivations, stepActivations, spineFrom]
  exact ⟨hread, hcount, by simp [tree, height, argHeight], activations_bounded.1 tokens tree hread⟩

end ExperienceCurves.Formula
