import NumericPython.Proofs.Lowering.Yields
import NumericPython.Proofs.Tree.Induction

set_option autoImplicit false

namespace NumericPython

def Name.IsPlain : Name → Prop
  | symbol s => s.info = none
  | dotted _ => True

def Name.MakesRange (callee : Name) (args : List Expr) : Prop :=
  match callee with
  | symbol s => s.name = "range" ∧ 1 ≤ args.length ∧ args.length ≤ 3
  | dotted _ => False

namespace Expr

/-- Expressions in canonical form; only an index may be a slice. -/
inductive Canonical : (isIndex : Bool) → Expr → Prop
  | integer {isIndex : Bool} (value : Int64) : Canonical isIndex (.integer value)
  | float {isIndex : Bool} {value : Binary64} (finite : value.isFinite = true) :
      Canonical isIndex (.float value)
  | complex {isIndex : Bool} {imaginary : Binary64} (finite : imaginary.isFinite = true) :
      Canonical isIndex (.complex imaginary)
  | boolean {isIndex : Bool} (value : Bool) : Canonical isIndex (.boolean value)
  | string {isIndex : Bool} (text : String) : Canonical isIndex (.string text)
  | nil {isIndex : Bool} : Canonical isIndex .nil
  | symbol {isIndex : Bool} (name : String) : Canonical isIndex (.symbol (.plain name))
  | dotted {isIndex : Bool} (name : DottedName) : Canonical isIndex (.dotted name)
  | tuple {isIndex : Bool} {items : List Expr} (each : ∀ e ∈ items, Canonical false e) :
      Canonical isIndex (.tuple items)
  | binary {isIndex : Bool} {op : BinaryOperator} {left right : Expr}
      (first : Canonical false left) (second : Canonical false right) :
      Canonical isIndex (.binary op left right)
  | unary {isIndex : Bool} {op : UnaryOperator} {operand : Expr} (inner : Canonical false operand) :
      Canonical isIndex (.unary op operand)
  | call {isIndex : Bool} {callee : Name} {args : List Expr} (plain : callee.IsPlain)
      (general : ¬ callee.MakesRange args) (each : ∀ e ∈ args, Canonical false e) :
      Canonical isIndex (.call callee args)
  | range {isIndex : Bool} {start stop step : Expr} (first : Canonical false start)
      (second : Canonical false stop) (third : Canonical false step) :
      Canonical isIndex (.range start stop step)
  | indexed {isIndex : Bool} {base index : Expr} {more : List Expr} (value : Canonical false base)
      (each : ∀ e ∈ index :: more, Canonical true e) : Canonical isIndex (.indexed base index more)
  | slice {start stop step : Option Expr} (first : ∀ e ∈ start, Canonical false e)
      (second : ∀ e ∈ stop, Canonical false e) (third : ∀ e ∈ step, Canonical false e) :
      Canonical true (.slice start stop step)

theorem Canonical.asIndex {e : Expr} (canonical : Canonical false e) : Canonical true e := by
  cases canonical <;> constructor <;> assumption

end Expr

namespace Lowering

section Literals

theorem finite?_isFinite {negate : Bool} {cs : List Char} {x : Binary64}
    (read : Literal.finite? negate cs = some x) : x.isFinite = true := by
  unfold Literal.finite? at read
  split at read
  · next y _ =>
    split at read
    · next finite =>
      cases read
      cases negate
      · exact finite
      · exact finite
    · cases read
  · cases read

theorem imaginary_canonical {negate : Bool} {cs : List Char} {e : Expr}
    (read : (Literal.finite? negate cs).map .complex = some e) : e.Canonical false := by
  obtain ⟨x, finite, rfl⟩ := Option.map_eq_some_iff.1 read
  exact .complex (finite?_isFinite finite)

theorem integer?_canonical {negate : Bool} {text : String} {e : Expr}
    (read : Literal.integer? negate text = some e) : e.Canonical false := by
  unfold Literal.integer? at read
  dsimp only at read
  split at read
  · exact imaginary_canonical read
  · simp only [Literal.whole?, Option.bind_eq_bind, Option.bind_eq_some_iff] at read
    obtain ⟨value, _, number, _, same⟩ := read
    cases same
    exact .integer number

theorem float?_canonical {negate : Bool} {text : String} {e : Expr}
    (read : Literal.float? negate text = some e) : e.Canonical false := by
  unfold Literal.float? at read
  dsimp only at read
  split at read
  · exact imaginary_canonical read
  · obtain ⟨x, finite, rfl⟩ := Option.map_eq_some_iff.1 read
    exact .float (finite?_isFinite finite)

theorem lowerInteger_canonical (negate : Bool) (text : String) (span : Span) :
    Ensures (Expr.Canonical false) (lowerInteger negate text span) := by
  unfold lowerInteger
  split
  · next e read => exact ensures_ok (integer?_canonical read)
  · exact ensures_error _

theorem lowerFloat_canonical (negate : Bool) (text : String) (span : Span) :
    Ensures (Expr.Canonical false) (lowerFloat negate text span) := by
  unfold lowerFloat
  split
  · next e read => exact ensures_ok (float?_canonical read)
  · exact ensures_error _

theorem lowerString_canonical (text : String) (span : Span) :
    Ensures (Expr.Canonical false) (lowerString text span) := by
  unfold lowerString
  split
  · exact ensures_ok (.string _)
  all_goals exact ensures_error _

end Literals

section Calls

theorem lowerCallee_isPlain (tree : Tree) : Ensures Name.IsPlain (lowerCallee tree) := by
  unfold lowerCallee
  split
  · exact ensures_ok rfl
  · exact ensures_map (ensures_true _) fun _ _ => trivial
  · exact ensures_error _

theorem call?_range (args : List Expr) :
    Resolve.call? "range" args =
      match args with
      | [stop] => some (.range (.integer 0) stop (.integer 1))
      | [start, stop] => some (.range start stop (.integer 1))
      | [start, stop, step] => some (.range start stop step)
      | _ => none := by
  have known : Resolve.ofCallName? "range" = some .range := by decide
  rw [Resolve.call?, known, Option.bind_some]
  rcases args with _ | ⟨a, _ | ⟨b, _ | ⟨c, _ | ⟨d, rest⟩⟩⟩⟩ <;> rfl

theorem callExpr_canonical {callee : Name} {args : List Expr} (plain : callee.IsPlain)
    (each : ∀ e ∈ args, e.Canonical false) : (callExpr callee args).Canonical false := by
  unfold callExpr
  split
  · next s =>
    split
    · next bare =>
      rw [call?_range]
      -- With no argument or with more than three, the call is kept as it is.
      rcases args with _ | ⟨a, _ | ⟨b, _ | ⟨c, _ | ⟨d, rest⟩⟩⟩⟩
      · exact .call plain (fun short => absurd short.2.1 (by decide)) each
      · exact .range (.integer 0) (each a (by simp)) (.integer 1)
      · exact .range (each a (by simp)) (each b (by simp)) (.integer 1)
      · exact .range (each a (by simp)) (each b (by simp)) (each c (by simp))
      · exact .call plain (fun short => absurd short.2.2 (by simp)) each
    · next other => exact .call plain (fun short => other short.1) each
  · exact .call plain id each

end Calls

section Chains

theorem pairwise_canonical {left : Expr} {pairs : List (BinaryOperator × Expr)}
    (first : left.Canonical false) (others : ∀ pair ∈ pairs, pair.2.Canonical false) :
    ∀ e ∈ pairwise left pairs, e.Canonical false := by
  induction pairs generalizing left with
  | nil => simp [pairwise]
  | cons pair rest ih =>
      obtain ⟨op, right⟩ := pair
      have head : right.Canonical false := others (op, right) (List.mem_cons_self ..)
      intro e member
      rcases List.mem_cons.1 member with rfl | member
      · exact .binary first head
      · exact ih head (fun pair member => others pair (List.mem_cons_of_mem _ member)) e member

theorem conjunction_canonical {first : Expr} {rest : List Expr} (head : first.Canonical false)
    (tail : ∀ e ∈ rest, e.Canonical false) :
    (rest.foldl (.binary .and) first).Canonical false := by
  induction rest generalizing first with
  | nil => exact head
  | cons e rest ih =>
      exact ih (.binary head (tail e (List.mem_cons_self ..)))
        fun d member => tail d (List.mem_cons_of_mem _ member)

theorem chain?_canonical {operands : List Expr} {operators : List BinaryOperator} {e : Expr}
    (built : chain? operands operators = some e) (each : ∀ d ∈ operands, d.Canonical false) :
    e.Canonical false := by
  unfold chain? at built
  split at built
  · cases built
  · next first others =>
    split at built
    · have all : ∀ d ∈ pairwise first (operators.zip others), d.Canonical false := by
        refine pairwise_canonical (each first (List.mem_cons_self ..)) fun pair member => ?_
        exact each pair.2 (List.mem_cons_of_mem _ (List.of_mem_zip member).2)
      split at built
      · cases built
      · next comparison rest links =>
        cases built
        rw [links] at all
        exact conjunction_canonical (all comparison (List.mem_cons_self ..))
          fun d member => all d (List.mem_cons_of_mem _ member)
    · cases built

end Chains

structure ReadsCanonical (tree : Tree) : Prop where
  expr : Ensures (Expr.Canonical false) (lowerExpr tree)
  slice : Ensures (Expr.Canonical true) (lowerSlice tree)
  arguments : Ensures (fun es => ∀ e ∈ es, e.Canonical false) (lowerArguments tree)

section Children

variable {children : List Tree}

theorem exprAt_canonical (inner : ∀ child ∈ children, ReadsCanonical child) (field : String) :
    ∀ reading ∈ exprAt field children, Ensures (Expr.Canonical false) reading := by
  rw [exprAt_eq]
  exact forall_found fun child member => (inner child member).expr

theorem firstNamed_canonical (inner : ∀ child ∈ children, ReadsCanonical child) :
    ∀ reading ∈ firstNamed children, Ensures (Expr.Canonical false) reading := by
  rw [firstNamed_eq]
  exact forall_found fun child member => (inner child member).expr

theorem argumentsAt_canonical (inner : ∀ child ∈ children, ReadsCanonical child) :
    ∀ reading ∈ argumentsAt children,
      Ensures (fun es => ∀ e ∈ es, e.Canonical false) reading := by
  rw [argumentsAt_eq]
  exact forall_found fun child member => (inner child member).arguments

theorem negatedArgument_canonical (inner : ∀ child ∈ children, ReadsCanonical child) :
    ∀ reading ∈ negatedArgument children, Ensures (Expr.Canonical false) reading := by
  rw [negatedArgument_eq]
  refine forall_found fun child member => ?_
  unfold lowerNegated
  split
  · exact lowerInteger_canonical _ _ _
  · exact lowerFloat_canonical _ _ _
  · exact ensures_map (inner child member).expr fun _ => .unary

theorem lowerNamed_canonical (inner : ∀ child ∈ children, ReadsCanonical child) :
    Ensures (fun es => ∀ e ∈ es, e.Canonical false) (lowerNamed children) := by
  rw [lowerNamed_eq]
  exact ensures_mapM fun child member => (inner child (List.mem_of_mem_filter member)).expr

theorem lowerIndices_canonical (inner : ∀ child ∈ children, ReadsCanonical child) :
    Ensures (fun es => ∀ e ∈ es, e.Canonical true) (lowerIndices children) := by
  rw [lowerIndices_eq]
  refine ensures_mapM fun child member => ?_
  have reads := inner child (List.mem_of_mem_filter member)
  unfold lowerIndex
  -- Here, and nowhere else, a slice is read.
  split
  · exact reads.slice
  · exact reads.expr.weaken fun _ => Expr.Canonical.asIndex

theorem sliceParts_canonical (inner : ∀ child ∈ children, ReadsCanonical child)
    (refusal : LowerError) (colons : Nat) {parts : SliceParts}
    (canonical : parts.toExpr.Canonical true) :
    Ensures (fun parts => parts.toExpr.Canonical true)
      (sliceParts refusal colons parts children) := by
  -- Each part is filled in by what the colons before it select; the invariant is on what was filled.
  induction children generalizing colons parts with
  | nil => exact ensures_ok canonical
  | cons child rest ih =>
      have others := fun c member => inner c (List.mem_cons_of_mem child member)
      rw [sliceParts]
      split
      · exact ih others _ canonical
      · split
        · refine ensures_bind (inner child (List.mem_cons_self ..)).expr fun e new => ?_
          refine ih others _ ?_
          unfold SliceParts.toExpr at canonical
          cases canonical with
          | slice first second third =>
              unfold SliceParts.fill
              split
              · exact .slice (by simpa using new) second third
              · exact .slice first (by simpa using new) third
              · exact .slice first second (by simpa using new)
        · exact ensures_error _

theorem binaryExpr_canonical (inner : ∀ child ∈ children, ReadsCanonical child)
    (accepts : BinaryOperator → Bool) (kind : Kind) (span : Span) :
    Ensures (Expr.Canonical false) (binaryExpr accepts kind span children (exprAt "left" children)
      (exprAt "right" children)) := by
  refine ensures_bind (ensures_true _) fun operator _ => ?_
  refine ensures_bind (ensures_true _) fun op _ => ?_
  refine ensures_bind (ensures_required (exprAt_canonical inner "left")) fun left first => ?_
  refine ensures_bind (ensures_required (exprAt_canonical inner "right")) fun right second => ?_
  exact ensures_ok (.binary first second)

end Children

theorem lowerExpr_canonical {tree : Tree} (inner : ∀ child ∈ tree.children, ReadsCanonical child) :
    Ensures (Expr.Canonical false) (lowerExpr tree) := by
  obtain ⟨kind, span, text, field, children⟩ := tree
  unfold lowerExpr
  split
  · exact ensures_ok (.symbol text)
  · exact lowerInteger_canonical _ _ _
  · exact lowerFloat_canonical _ _ _
  · exact lowerString_canonical _ _
  · exact ensures_ok (.boolean true)
  · exact ensures_ok (.boolean false)
  · exact ensures_ok .nil
  · exact ensures_map (ensures_true _) fun name _ => .dotted name
  · -- calls
    refine ensures_bind (ensures_true _) fun function _ => ?_
    refine ensures_bind (lowerCallee_isPlain _) fun callee plain => ?_
    refine ensures_bind (ensures_required (argumentsAt_canonical inner)) fun args each => ?_
    exact ensures_ok (callExpr_canonical plain each)
  · -- subscripts, which are turned down without an index
    refine ensures_bind (ensures_required (exprAt_canonical inner "value")) fun base value => ?_
    refine ensures_bind (lowerIndices_canonical inner) fun indices each => ?_
    cases indices with
    | nil => exact ensures_error _
    | cons index more => exact ensures_ok (.indexed value each)
  · exact binaryExpr_canonical inner _ _ _
  · exact binaryExpr_canonical inner _ _ _
  · -- comparisons
    refine ensures_bind (lowerNamed_canonical inner) fun operands each => ?_
    refine ensures_bind (ensures_true _) fun operators _ => ?_
    split
    · next e built => exact ensures_ok (chain?_canonical built each)
    · exact ensures_error _
  · -- signs
    refine ensures_bind (ensures_true _) fun operator _ => ?_
    refine ensures_bind (ensures_true _) fun _ _ => ?_
    split
    · exact ensures_required (negatedArgument_canonical inner)
    · exact ensures_error _
  · exact ensures_bind (ensures_required (exprAt_canonical inner "argument"))
      fun operand canonical => ensures_ok (.unary canonical)
  · -- a node that is read for one of its children alone
    split
    · next reading found => exact firstNamed_canonical inner reading found
    · exact ensures_error _
  · exact ensures_map (lowerNamed_canonical inner) fun _ => .tuple
  · exact ensures_map (lowerNamed_canonical inner) fun _ => .tuple
  · exact ensures_map (lowerNamed_canonical inner) fun _ => .tuple
  · exact ensures_error _

theorem reads_canonical (tree : Tree) : ReadsCanonical tree := by
  induction tree using Tree.induction with
  | step tree inner =>
      refine ⟨lowerExpr_canonical inner, ?_, ?_⟩
      · obtain ⟨kind, span, text, field, children⟩ := tree
        rw [lowerSlice]
        exact ensures_map (sliceParts_canonical inner _ 0 (.slice nofun nofun nofun)) fun _ => id
      · obtain ⟨kind, span, text, field, children⟩ := tree
        rw [lowerArguments]
        split
        · exact lowerNamed_canonical inner
        · exact ensures_error _

end Lowering

end NumericPython
