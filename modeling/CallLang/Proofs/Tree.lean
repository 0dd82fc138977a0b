/-
# `CallLang.Proofs.Tree` — expressions as trees

The parameters of a call stand in a list, or in an option for a unary call, so
the recursor of `Expr` speaks of three types at once.  `Expr.tree_induction`
packs it: a property holds of all expressions when it passes from the
parameters of a node to the node.
-/
import CallLang.Expr

namespace CallLang
namespace Expr

@[elab_as_elim]
theorem tree_induction {P : Expr → Prop}
    (number : ∀ text, P (.number text))
    (string : ∀ text, P (.string text))
    (conditional : ∀ params, (∀ p ∈ params, P p) → P (.conditional params))
    (predicate : ∀ name params, (∀ p ∈ params, P p) → P (.predicate name params))
    (binary : ∀ name params, (∀ p ∈ params, P p) → P (.binary name params))
    (unary : ∀ name param, (∀ p ∈ param, P p) → P (.unary name param))
    (foreign : ∀ typeName, P (.foreign typeName)) (e : Expr) : P e :=
  @Expr.rec P (fun ps => ∀ p ∈ ps, P p) (fun param => ∀ p ∈ param, P p)
    number string conditional predicate binary unary foreign
    (fun _ h => absurd h List.not_mem_nil)
    (fun p ps hp hps q hq => by
      rcases List.mem_cons.mp hq with rfl | hq
      · exact hp
      · exact hps q hq)
    (fun _ h => nomatch h)
    (fun p hp q hq => by
      obtain rfl : p = q := Option.some.inj hq
      exact hp)
    e

/-- The parameters of a node. -/
def children : Expr → List Expr
  | .number _ => []
  | .string _ => []
  | .conditional params => params
  | .predicate _ params => params
  | .binary _ params => params
  | .unary _ param => param.toList
  | .foreign _ => []

/-- `d.Within e`: the expression `d` is `e`, or stands somewhere in it. -/
inductive Within (d : Expr) : Expr → Prop
  | self : Within d d
  | child {e p : Expr} : p ∈ e.children → Within d p → Within d e

end Expr
end CallLang
