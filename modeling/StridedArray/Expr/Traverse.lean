import StridedArray.Expr.Build
import StridedArray.Expr.Sharing

/-! # Traversing expressions

* `postorder` — every occurrence of a node, operands before what uses them;
* `visit`, `nodes` — every node once, in the order of first occurrences; `mem_nodes` — they are the
  nodes of `postorder`;
* `reads` — the buffer reads among them; `specials` — the variables with their extents;
* `distinct` — what is alike taken for one;
* `transform` — rebuilding an expression from its leaves upwards; `substitute` — an expression in
  place of a variable. -/

namespace StridedArray.Expr

/-! ## Nodes -/

def postorder : Expr → List Expr
  | e@(const ..) => [e]
  | e@(special ..) => [e]
  | e@(accessor _ _ _ index) => postorder index ++ [e]
  | e@(load _ _ index) => postorder index ++ [e]
  | e@(unary _ _ a) => postorder a ++ [e]
  | e@(binary _ _ a b) => postorder a ++ postorder b ++ [e]
  | e@(select _ condition a b) => postorder condition ++ postorder a ++ postorder b ++ [e]
  | e@(reduce _ _ body _) => postorder body ++ [e]

/-- The nodes of an expression that are not known yet, in front of the known ones, the last one
    first. -/
def visit (e : Expr) (known : List Expr) : List Expr :=
  if e ∈ known then known
  else
    match e with
    | const .. => e :: known
    | special .. => e :: known
    | accessor _ _ _ index => e :: visit index known
    | load _ _ index => e :: visit index known
    | unary _ _ a => e :: visit a known
    | binary _ _ a b => e :: visit b (visit a known)
    | select _ condition a b => e :: visit b (visit a (visit condition known))
    | reduce _ _ body _ => e :: visit body known

def nodes (e : Expr) : List Expr := (visit (ShareCommon.shareCommon' e) []).reverse

def Closed (known : List Expr) : Prop := ∀ k ∈ known, ∀ x ∈ k.postorder, x ∈ known

theorem self_mem_postorder (e : Expr) : e ∈ e.postorder := by cases e <;> simp [postorder]

theorem closed_cons {e : Expr} {known : List Expr} (h : Closed known)
    (below : ∀ x ∈ e.postorder, x = e ∨ x ∈ known) : Closed (e :: known) := by
  intro k hk x hx
  rcases List.mem_cons.1 hk with rfl | hk
  · exact List.mem_cons.2 (below x hx)
  · exact List.mem_cons_of_mem _ (h k hk x hx)

/-- Visiting adds the nodes of the expression and nothing else. -/
theorem visit_spec (e : Expr) : ∀ known : List Expr, Closed known →
    Closed (visit e known) ∧ ∀ x, x ∈ visit e known ↔ x ∈ e.postorder ∨ x ∈ known := by
  induction e with
  | const k v d =>
    intro known h
    unfold visit
    split
    · next m => exact ⟨h, fun x => by simp only [postorder, List.mem_singleton]; grind⟩
    · exact ⟨closed_cons h (by simp [postorder]), fun x => by simp [postorder]⟩
  | special n m d =>
    intro known h
    unfold visit
    split
    · next m => exact ⟨h, fun x => by simp only [postorder, List.mem_singleton]; grind⟩
    · exact ⟨closed_cons h (by simp [postorder]), fun x => by simp [postorder]⟩
  | accessor s k l i ih =>
    intro known h
    unfold visit
    split
    · next m => exact ⟨h, fun x => ⟨.inr, fun o => o.elim (h _ m x) id⟩⟩
    · obtain ⟨c, spec⟩ := ih known h
      exact ⟨closed_cons c (by intro x hx; simp [postorder] at hx; grind), fun x => by
        simp only [postorder, List.mem_cons, List.mem_append]; grind⟩
  | load s k i ih =>
    intro known h
    unfold visit
    split
    · next m => exact ⟨h, fun x => ⟨.inr, fun o => o.elim (h _ m x) id⟩⟩
    · obtain ⟨c, spec⟩ := ih known h
      exact ⟨closed_cons c (by intro x hx; simp [postorder] at hx; grind), fun x => by
        simp only [postorder, List.mem_cons, List.mem_append]; grind⟩
  | unary o k a ih =>
    intro known h
    unfold visit
    split
    · next m => exact ⟨h, fun x => ⟨.inr, fun o => o.elim (h _ m x) id⟩⟩
    · obtain ⟨c, spec⟩ := ih known h
      exact ⟨closed_cons c (by intro x hx; simp [postorder] at hx; grind), fun x => by
        simp only [postorder, List.mem_cons, List.mem_append]; grind⟩
  | binary o k a b iha ihb =>
    intro known h
    unfold visit
    split
    · next m => exact ⟨h, fun x => ⟨.inr, fun o => o.elim (h _ m x) id⟩⟩
    · obtain ⟨c, spec⟩ := iha known h
      obtain ⟨c', spec'⟩ := ihb _ c
      exact ⟨closed_cons c' (by intro x hx; simp [postorder] at hx; grind), fun x => by
        simp only [postorder, List.mem_cons, List.mem_append]; grind⟩
  | select k d a b ihd iha ihb =>
    intro known h
    unfold visit
    split
    · next m => exact ⟨h, fun x => ⟨.inr, fun o => o.elim (h _ m x) id⟩⟩
    · obtain ⟨c, spec⟩ := ihd known h
      obtain ⟨c', spec'⟩ := iha _ c
      obtain ⟨c'', spec''⟩ := ihb _ c'
      exact ⟨closed_cons c'' (by intro x hx; simp [postorder] at hx; grind), fun x => by
        simp only [postorder, List.mem_cons, List.mem_append]; grind⟩
  | reduce o k a n ih =>
    intro known h
    unfold visit
    split
    · next m => exact ⟨h, fun x => ⟨.inr, fun o => o.elim (h _ m x) id⟩⟩
    · obtain ⟨c, spec⟩ := ih known h
      exact ⟨closed_cons c (by intro x hx; simp [postorder] at hx; grind), fun x => by
        simp only [postorder, List.mem_cons, List.mem_append]; grind⟩

@[simp] theorem mem_nodes {e x : Expr} : x ∈ e.nodes ↔ x ∈ e.postorder := by
  have h : Closed [] := by intro k hk; cases hk
  have spec := (visit_spec e [] h).2 x
  simpa [nodes, ShareCommon.shareCommon'] using spec

def isRead : Expr → Bool
  | accessor .. | load .. => true
  | _ => false

def reads (e : Expr) : List Expr := e.nodes.filter isRead

def distinct (es : List Expr) : List Expr :=
  (es.foldl (fun kept e => if kept.any (·.alike e) then kept else e :: kept) []).reverse

/-- A list of named numbers with one entry set. A new name comes last, a known one keeps its
    place. -/
def setEntry (name : String) (n : Int) : List (String × Int) → List (String × Int)
  | [] => [(name, n)]
  | (name', n') :: rest =>
    if name' = name then (name, n) :: rest else (name', n') :: setEntry name n rest

/-- The variables of an expression in order of first occurrence. Where one name has several extents the
    declaration that occurs last for the first time decides. -/
def specials (e : Expr) : List (String × Int) :=
  e.nodes.foldl
    (fun known node =>
      match node with
      | special name extent _ => setEntry name extent known
      | _ => known)
    []

/-! ## Rebuilding -/

/-- The expression rebuilt from its leaves upwards, with `f` applied to every node after its
    operands. What `f` returns is not visited again. -/
def transform {m : Type → Type} [Monad m] (f : Expr → m Expr) : Expr → m Expr
  | e@(const ..) => f e
  | e@(special ..) => f e
  | accessor slot kind layout index => do f (accessor slot kind layout (← transform f index))
  | load slot kind index => do f (load slot kind (← transform f index))
  | unary op kind a => do f (unary op kind (← transform f a))
  | binary op kind a b => do
    let a ← transform f a
    let b ← transform f b
    f (binary op kind a b)
  | select kind condition a b => do
    let condition ← transform f condition
    let a ← transform f a
    let b ← transform f b
    f (select kind condition a b)
  | reduce op kind body extent => do f (reduce op kind (← transform f body) extent)

def withOperands : Expr → List Expr → Expr
  | accessor slot kind layout _, [index] => accessor slot kind layout index
  | load slot kind _, [index] => load slot kind index
  | unary op kind _, [a] => unary op kind a
  | binary op kind _ _, [a, b] => binary op kind a b
  | select kind _ _ _, [condition, a, b] => select kind condition a b
  | reduce op kind _ extent, [body] => reduce op kind body extent
  | e, _ => e

def transformStep (f : Expr → Except Failure Expr) (e : Expr) (operands : List (Except Failure Expr)) :
    Except Failure Expr := do
  f (e.withOperands (← operands.mapM id))

theorem foldUp_transformStep (f : Expr → Except Failure Expr) (e : Expr) :
    foldUp (transformStep f) e = transform f e := by
  induction e with
  | const => rfl
  | special => rfl
  | accessor _ _ _ i ih => rw [foldUp, ih, transform]; cases transform f i <;> rfl
  | load _ _ i ih => rw [foldUp, ih, transform]; cases transform f i <;> rfl
  | unary _ _ a ih => rw [foldUp, ih, transform]; cases transform f a <;> rfl
  | binary _ _ a b iha ihb =>
    rw [foldUp, iha, ihb, transform]
    cases transform f a <;> cases transform f b <;> rfl
  | select _ c a b ihc iha ihb =>
    rw [foldUp, ihc, iha, ihb, transform]
    cases transform f c <;> cases transform f a <;> cases transform f b <;> rfl
  | reduce _ _ a _ ih => rw [foldUp, ih, transform]; cases transform f a <;> rfl

def transformShared (f : Expr → Except Failure Expr) (e : Expr) : Except Failure Expr :=
  foldUpShared (transformStep f) e

@[simp] theorem transformShared_eq (f : Expr → Except Failure Expr) (e : Expr) :
    transformShared f e = transform f e := by
  rw [transformShared, foldUpShared_eq, foldUp_transformStep]

/-- The expression in place of a variable, and every other node unchanged. -/
def replaceSpecial (name : String) (replacement : Expr) : Expr → Expr
  | e@(special name' ..) => if name' = name then replacement else e
  | e => e

/-- The expression with another one in place of every variable of the given name. The kinds of the
    nodes above stay what they were. -/
def substitute (e : Expr) (name : String) (replacement : Expr) : Expr :=
  Id.run (transform (fun node => pure (replaceSpecial name replacement node)) e)

def substituteStep (name : String) (replacement : Expr) (e : Expr) (operands : List Expr) : Expr :=
  replaceSpecial name replacement (e.withOperands operands)

/-- The expression with another one in place of a variable, operands that occur several times being
    gone through once. -/
def substituteShared (e : Expr) (name : String) (replacement : Expr) : Expr :=
  foldUpShared (substituteStep name replacement) e

@[simp] theorem substituteShared_eq (e : Expr) (name : String) (replacement : Expr) :
    e.substituteShared name replacement = e.substitute name replacement := by
  rw [substituteShared, foldUpShared_eq]
  induction e with
  | const => rfl
  | special => rfl
  | accessor _ _ _ i ih => rw [foldUp, ih]; rfl
  | load _ _ i ih => rw [foldUp, ih]; rfl
  | unary _ _ a ih => rw [foldUp, ih]; rfl
  | binary _ _ a b iha ihb => rw [foldUp, iha, ihb]; rfl
  | select _ c a b ihc iha ihb => rw [foldUp, ihc, iha, ihb]; rfl
  | reduce _ _ a _ ih => rw [foldUp, ih]; rfl

end StridedArray.Expr
