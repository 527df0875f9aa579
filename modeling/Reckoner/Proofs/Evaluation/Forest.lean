/-
Trees and their postorders, by counting values.

In a postorder every token stands behind the trees of the values that it
takes. So a list of postfix tokens needs no grammar: it is the postorder of
some trees one after the other if every token finds as many values before
it as it takes (`exists_forest`), each token leaving one value in the
place of those (`surplus`). There is one tree for each value that is left
(`surplus_tokensAll`), and only one way to read them off
(`Spells.unique`).

Trees are looked at here through their roots and parts alone: the token
that is applied and the trees of the values that it is applied to. That
makes one kind of tree of the five.
-/
import Mathlib.Data.List.Basic
import Mathlib.Data.List.Induction
import Reckoner.Proofs.Expression
import Reckoner.Proofs.Token.Filled

namespace Reckoner

-- ============================================================== the counting

/-- How many values a postfix token takes, if the operators are the usual
ones. -/
def Token.arity (functions : Registry) (token : Token) : Nat :=
  match token.kind with
  | .function => Evaluation.arityOf functions token.text
  | .operator => if token.operator = some .negate then 1 else 2
  | _ => 0

/-- How many values postfix tokens leave: each token one, in place of those
that it takes. -/
def surplus (functions : Registry) : List Token → Int
  | [] => 0
  | token :: rest => 1 - token.arity functions + surplus functions rest

/-- Every token finds the values that it takes, if `available` ones are
there at the beginning. -/
def Supplied (functions : Registry) : Int → List Token → Prop
  | _, [] => True
  | available, token :: rest =>
      token.arity functions ≤ available
        ∧ Supplied functions (available + (1 - token.arity functions)) rest

instance decidableSupplied (functions : Registry) :
    (available : Int) → (tokens : List Token) →
      Decidable (Supplied functions available tokens)
  | _, [] => .isTrue trivial
  | available, token :: rest =>
      have := decidableSupplied functions
        (available + (1 - token.arity functions)) rest
      inferInstanceAs (Decidable (_ ∧ _))

variable {functions : Registry} {available : Int} {token : Token}

@[simp] theorem surplus_nil : surplus functions [] = 0 := rfl

@[simp] theorem surplus_cons (token : Token) (tokens : List Token) :
    surplus functions (token :: tokens)
      = 1 - token.arity functions + surplus functions tokens := rfl

@[simp] theorem surplus_append (first second : List Token) :
    surplus functions (first ++ second)
      = surplus functions first + surplus functions second := by
  induction first with
  | nil => simp
  | cons token rest ih =>
      simp only [List.cons_append, surplus_cons, ih, Int.add_assoc]

private theorem supplied_append (first second : List Token) :
    Supplied functions available (first ++ second)
      ↔ Supplied functions available first
        ∧ Supplied functions (available + surplus functions first) second := by
  induction first generalizing available with
  | nil => simp [Supplied]
  | cons token rest ih =>
      simp only [List.cons_append, Supplied, ih, surplus_cons, and_assoc,
        Int.add_assoc]

private theorem supplied_singleton :
    Supplied functions available [token]
      ↔ token.arity functions ≤ available := by
  simp [Supplied]

/-- Every token is supplied, or there is a first one that is not. -/
theorem supplied_or_starved (functions : Registry) (tokens : List Token) :
    Supplied functions 0 tokens
      ∨ ∃ before token after, tokens = before ++ token :: after
        ∧ Supplied functions 0 before
        ∧ surplus functions before < token.arity functions := by
  induction tokens using List.reverseRecOn with
  | nil => exact Or.inl trivial
  | append_singleton tokens last ih =>
      rcases ih with htokens | ⟨before, token, after, rfl, hbefore⟩
      · by_cases hlast : last.arity functions ≤ surplus functions tokens
        · refine Or.inl
            ((supplied_append _ _).mpr ⟨htokens, supplied_singleton.mpr ?_⟩)
          omega
        · exact Or.inr ⟨tokens, last, [], rfl, htokens, by omega⟩
      · exact Or.inr ⟨before, token, after ++ [last], by simp, hbefore⟩

/-- In `x y * + z` the sum finds one value where it takes two. -/
example : ¬ Supplied .builtin 0 [⟨.identifier, "x", 0, none, none⟩,
    ⟨.identifier, "y", 1, none, none⟩,
    ⟨.operator, "*", 2, none, some .multiply⟩,
    ⟨.operator, "+", 3, none, some .add⟩,
    ⟨.identifier, "z", 4, none, none⟩] := by
  decide

-- ================================================================= the trees

namespace Expression

mutual

/-- The tokens of a tree in postorder, each as the tree has it. -/
def tokens : Expression → List Token
  | .number token => [token]
  | .identifier token => [token]
  | .negation minus body => tokens body ++ [minus]
  | .binary _ token left right => tokens left ++ tokens right ++ [token]
  | .call function arguments => tokensAll arguments ++ [function]

/-- The tokens of trees one after the other. -/
def tokensAll : List Expression → List Token
  | [] => []
  | e :: rest => tokens e ++ tokensAll rest

end

/-- A tree whose tokens are of the right kinds: operator tokens carry the
operator that is applied, and calls are of functions of the registry, with
as many arguments as these take. -/
inductive Fits (functions : Registry) : Expression → Prop where
  | number {token : Token} (hkind : token.kind = .number) : Fits functions
    (.number token)
  | identifier {token : Token} (hkind : token.kind = .identifier) :
      Fits functions (.identifier token)
  | negation {minus body} (hkind : minus.kind = .operator)
      (hop : minus.operator = some .negate) (hbody : Fits functions body) :
      Fits functions (.negation minus body)
  | binary {op left right} {token : Token} (hkind : token.kind = .operator)
      (hop : token.operator = some op) (hbinary : op ≠ .negate)
      (hleft : Fits functions left) (hright : Fits functions right) :
      Fits functions (.binary op token left right)
  | call {function arguments spec} (hkind : function.kind = .function)
      (hspec : functions.find? function.text = some spec)
      (hcount : arguments.length = spec.arity)
      (harguments : ∀ e ∈ arguments, Fits functions e) :
      Fits functions (.call function arguments)

/-- The tokens are the postorder of the tree. -/
def Spells (functions : Registry) (e : Expression) (tokens : List Token) :
    Prop :=
  e.Fits functions ∧ e.tokens = tokens

-- ======================================================== roots and parts

/-- The token that is applied last. -/
def root : Expression → Token
  | .number token | .identifier token | .negation token _ | .binary _ token _ _
  | .call token _ => token

/-- The trees of the values that it is applied to. -/
def parts : Expression → List Expression
  | .number _ | .identifier _ => []
  | .negation _ body => [body]
  | .binary _ _ left right => [left, right]
  | .call _ arguments => arguments

/-- The tree with the given root and parts, as far as there is one. -/
def ofParts (token : Token) (parts : List Expression) : Expression :=
  match token.kind, parts with
  | .number, _ => .number token
  | .function, _ => .call token parts
  | .operator, [body] => .negation token body
  | .operator, [left, right] =>
      .binary (token.operator.getD .negate) token left right
  | _, _ => .identifier token

theorem tokens_eq (e : Expression) :
    e.tokens = tokensAll e.parts ++ [e.root] := by
  cases e <;> simp [tokens, tokensAll, parts, root]

/-- What holds of an expression if it holds of its parts holds of every
expression. -/
theorem induct_parts {motive : Expression → Prop}
    (h : ∀ e, (∀ part ∈ e.parts, motive part) → motive e) (e : Expression) :
    motive e := by
  induction e with
  | number token => exact h _ (by simp [parts])
  | identifier token => exact h _ (by simp [parts])
  | negation minus body ih => exact h _ (by simpa [parts] using ih)
  | binary op token left right ihl ihr =>
      exact h _ (by simpa [parts] using ⟨ihl, ihr⟩)
  | call function arguments ih => exact h _ ih

private theorem tokensAll_append (first second : List Expression) :
    tokensAll (first ++ second) = tokensAll first ++ tokensAll second := by
  induction first with
  | nil => simp [tokensAll]
  | cons e rest ih => simp [tokensAll, ih]

namespace Fits

variable {e e' : Expression}

theorem of_parts (h : e.Fits functions) :
    ∀ part ∈ e.parts, part.Fits functions := by
  cases h with
  | number | identifier => simp [parts]
  | negation _ _ hbody => simpa [parts] using hbody
  | binary _ _ _ hleft hright => simpa [parts] using ⟨hleft, hright⟩
  | call _ _ _ harguments => exact harguments

/-- There are as many parts as the root takes values. -/
theorem length_parts (h : e.Fits functions) :
    e.parts.length = e.root.arity functions := by
  cases h with
  | number hkind | identifier hkind => simp [parts, root, Token.arity, hkind]
  | negation hkind hop => simp [parts, root, Token.arity, hkind, hop]
  | binary hkind hop hbinary =>
      simp [parts, root, Token.arity, hkind, hop, hbinary]
  | call hkind hspec hcount =>
      simp [parts, root, Token.arity, hkind, Evaluation.arityOf, hspec, hcount]

/-- A tree is its root and its parts. -/
theorem ofParts_eq (h : e.Fits functions) : ofParts e.root e.parts = e := by
  cases h with
  | number hkind | identifier hkind => simp [ofParts, root, parts, hkind]
  | negation hkind hop => simp [ofParts, root, parts, hkind]
  | binary hkind hop hbinary => simp [ofParts, root, parts, hkind, hop]
  | call hkind hspec hcount => simp [ofParts, root, parts, hkind]

end Fits

/-- A token is the root of a tree over as many trees as it takes values. -/
theorem exists_tree {args : List Expression} (htoken : token.Ready functions)
    (hargs : ∀ e ∈ args, e.Fits functions)
    (hcount : args.length = token.arity functions) :
    ∃ e, Fits functions e ∧ e.tokens = tokensAll args ++ [token] := by
  cases hkind : token.kind with
  | number =>
      obtain rfl : args = [] := by simpa [Token.arity, hkind] using hcount
      exact ⟨_, .number hkind, rfl⟩
  | identifier =>
      obtain rfl : args = [] := by simpa [Token.arity, hkind] using hcount
      exact ⟨_, .identifier hkind, rfl⟩
  | function =>
      obtain ⟨spec, hspec⟩ :=
        NameMap.contains_eq_true_iff.mp (htoken.contains hkind)
      refine ⟨_, .call hkind hspec ?_ hargs, rfl⟩
      simpa [Token.arity, hkind, Evaluation.arityOf, hspec] using hcount
  | operator =>
      obtain ⟨op, hop⟩ := htoken.operator hkind
      by_cases hnegate : op = .negate
      · subst hnegate
        obtain ⟨body, rfl⟩ : ∃ body, args = [body] := by
          rw [← List.length_eq_one_iff]
          simpa [Token.arity, hkind, hop] using hcount
        exact ⟨_, .negation hkind hop (hargs body (by simp)),
          by simp [tokens, tokensAll]⟩
      · obtain ⟨left, right, rfl⟩ : ∃ left right, args = [left, right] := by
          rw [← List.length_eq_two]
          simpa [Token.arity, hkind, hop, hnegate] using hcount
        exact ⟨_, .binary hkind hop hnegate (hargs left (by simp))
          (hargs right (by simp)), by simp [tokens, tokensAll]⟩
  | leftParen | rightParen | comma => simp [Token.Ready, hkind] at htoken

-- ============================================================== the forests

/-- A tree leaves one value, and trees leave one each, if each does. -/
theorem surplus_tokensAll_of {es : List Expression}
    (h : ∀ e ∈ es, surplus functions e.tokens = 1) :
    surplus functions (tokensAll es) = es.length := by
  induction es with
  | nil => rfl
  | cons e rest ih =>
      have hrest := ih fun e he => h e (by simp [he])
      have hfirst := h e (by simp)
      simp only [tokensAll, surplus_append, hrest, hfirst, List.length_cons]
      omega

theorem Fits.surplus_tokens {e : Expression} (h : e.Fits functions) :
    surplus functions e.tokens = 1 := by
  induction e using induct_parts with
  | h e ih =>
      have hparts := surplus_tokensAll_of
        fun part hpart => ih part hpart (h.of_parts part hpart)
      rw [tokens_eq, surplus_append, hparts, h.length_parts]
      simp only [surplus_cons, surplus_nil]
      omega

theorem surplus_tokensAll {es : List Expression}
    (h : ∀ e ∈ es, e.Fits functions) :
    surplus functions (tokensAll es) = es.length :=
  surplus_tokensAll_of fun e he => (h e he).surplus_tokens

/-- In the postorders of trees every token is supplied. -/
theorem supplied_tokensAll_of {es : List Expression}
    (hes : ∀ e ∈ es, e.Fits functions)
    (h : ∀ e ∈ es, ∀ available, 0 ≤ available →
      Supplied functions available e.tokens)
    (havailable : 0 ≤ available) :
    Supplied functions available (tokensAll es) := by
  induction es generalizing available with
  | nil => trivial
  | cons e rest ih =>
      have hone := (hes e (by simp)).surplus_tokens
      refine (supplied_append _ _).mpr ⟨h e (by simp) available havailable, ?_⟩
      refine ih (fun e he => hes e (by simp [he]))
        (fun e he => h e (by simp [he])) ?_
      omega

theorem Fits.supplied {e : Expression} (h : e.Fits functions)
    (havailable : 0 ≤ available) :
    Supplied functions available e.tokens := by
  induction e using induct_parts generalizing available with
  | h e ih =>
      have hparts := surplus_tokensAll h.of_parts
      have hsupplied := supplied_tokensAll_of h.of_parts
        (fun part hpart _ => ih part hpart (h.of_parts part hpart)) havailable
      rw [tokens_eq, supplied_append, supplied_singleton, hparts,
        h.length_parts]
      exact ⟨hsupplied, by omega⟩

/-- Tokens that are all supplied are the postorders of trees. -/
theorem exists_forest {tokens : List Token}
    (htokens : ∀ t ∈ tokens, t.Ready functions)
    (h : Supplied functions 0 tokens) :
    ∃ es, (∀ e ∈ es, e.Fits functions) ∧ tokensAll es = tokens := by
  induction tokens using List.reverseRecOn with
  | nil => exact ⟨[], by simp, rfl⟩
  | append_singleton tokens last ih =>
      obtain ⟨hbefore, hlast⟩ := (supplied_append _ _).mp h
      obtain ⟨es, hes, rfl⟩ :=
        ih (fun t ht => htokens t (by simp [ht])) hbefore
      rw [supplied_singleton, surplus_tokensAll hes] at hlast
      -- the last token takes the last trees as its parts
      let kept := es.length - last.arity functions
      have hparts : ∀ e ∈ es.drop kept, e.Fits functions :=
        fun e he => hes e (List.mem_of_mem_drop he)
      have hcount : (es.drop kept).length = last.arity functions := by
        rw [List.length_drop]
        omega
      obtain ⟨e, he, htree⟩ :=
        exists_tree (htokens last (by simp)) hparts hcount
      refine ⟨es.take kept ++ [e], ?_, ?_⟩
      · intro e' he'
        rcases List.mem_append.mp he' with hkept | hnew
        · exact hes e' (List.mem_of_mem_take hkept)
        · rwa [List.mem_singleton.mp hnew]
      · rw [tokensAll_append]
        simp only [tokensAll, htree, List.append_nil, ← List.append_assoc]
        rw [← tokensAll_append, List.take_append_drop]

-- ============================================================ the only ones

/-- Forests of one size that end in the same tokens are the same, if trees
are. -/
theorem forests_eq_of {es es' : List Expression} {before before' : List Token}
    (htrees : ∀ e ∈ es, ∀ e' before before', e'.Fits functions →
      before ++ e.tokens = before' ++ e'.tokens → e = e' ∧ before = before')
    (hes' : ∀ e ∈ es', e.Fits functions) (hlength : es.length = es'.length)
    (h : before ++ tokensAll es = before' ++ tokensAll es') :
    es = es' ∧ before = before' := by
  induction es using List.reverseRecOn generalizing es' with
  | nil =>
      obtain rfl : es' = [] := List.length_eq_zero_iff.mp hlength.symm
      simpa [tokensAll] using h
  | append_singleton es last ih =>
      rcases List.eq_nil_or_concat es' with rfl | ⟨es', last', rfl⟩
      · simp at hlength
      · simp only [List.concat_eq_append, tokensAll_append, tokensAll,
          List.append_nil, ← List.append_assoc, List.length_append,
          List.length_singleton, Nat.add_right_cancel_iff] at h hlength hes'
        obtain ⟨rfl, hrest⟩ :=
          htrees last (by simp) last' _ _ (hes' last' (by simp)) h
        obtain ⟨rfl, rfl⟩ := ih (fun e he => htrees e (by simp [he]))
          (fun e he => hes' e (by simp [he])) hlength hrest
        simp

/-- A tree is determined by its tokens, also where others stand before
them. -/
theorem Fits.eq_of_tokens {e : Expression} (h : e.Fits functions) :
    ∀ e' before before', e'.Fits functions →
      before ++ e.tokens = before' ++ e'.tokens → e = e'
        ∧ before = before' := by
  induction e using induct_parts with
  | h e ih =>
      intro e' before before' h' heq
      rw [tokens_eq, tokens_eq, ← List.append_assoc, ← List.append_assoc]
        at heq
      obtain ⟨hparts, hroot⟩ := List.append_inj' heq rfl
      have hroot : e.root = e'.root := by simpa using hroot
      have hlength : e.parts.length = e'.parts.length := by
        rw [h.length_parts, h'.length_parts, hroot]
      obtain ⟨hsame, hbefore⟩ := forests_eq_of
        (fun part hpart => ih part hpart (h.of_parts part hpart)) h'.of_parts
          hlength hparts
      rw [← h.ofParts_eq, ← h'.ofParts_eq, hroot, hsame]
      exact ⟨rfl, hbefore⟩

/-- Tokens are the postorder of one tree at most. -/
theorem Spells.unique {e e' : Expression} {tokens : List Token}
    (h : Spells functions e tokens) (h' : Spells functions e' tokens) :
    e = e' :=
  (h.1.eq_of_tokens e' [] [] h'.1 (by rw [h.2, h'.2])).1

/-- Tokens are the postorder of a tree if every one is supplied and one
value is left. -/
theorem exists_spells_iff {tokens : List Token}
    (htokens : ∀ t ∈ tokens, t.Ready functions) :
    (∃ e, Spells functions e tokens)
      ↔ Supplied functions 0 tokens ∧ surplus functions tokens = 1 := by
  constructor
  · rintro ⟨e, he, rfl⟩
    exact ⟨he.supplied (Int.le_refl 0), he.surplus_tokens⟩
  · rintro ⟨hsupplied, hone⟩
    obtain ⟨es, hes, rfl⟩ := exists_forest htokens hsupplied
    rw [surplus_tokensAll hes] at hone
    obtain ⟨e, rfl⟩ := List.length_eq_one_iff.mp (by omega : es.length = 1)
    exact ⟨e, hes e (by simp), by simp [tokensAll]⟩

end Expression

end Reckoner
