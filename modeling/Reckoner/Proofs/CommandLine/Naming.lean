/-
The names of variables on the command line and in expressions.

An assignment reads its name from a text in one way, the scan of an
expression in another: there what stands before an equals sign is taken
without the blanks at its ends and held against the letters, here letters
are collected as far as they go and then looked up among the functions. The
two agree. The name of an assignment is scanned to one token, and that is a
variable unless a function has the name (`scan_name`); a calculator on which
the assignment was the last for its name then has the value without asking
(`evaluate_bound_name`). And a variable of any expression may be assigned
whatever can be read as a number (`isName_of_scan`).

The functions are not held against the name that is assigned, so `sin` may
be, which no expression can make use of (`assigned_function_name`).
-/
import Reckoner.CommandLine.Assignment
import Reckoner.Proofs.Calculator.Caret

namespace Reckoner

open Text

-- =============================================================== the names

namespace Assignment

private theorem isName_iff {cs : List Char} : isName cs = true
    ↔ Lexeme.IsName cs := by
  simp [isName, Lexeme.IsName]

/-- What is assigned to has a name of letters. -/
theorem isName_of_read {text : String} {a : Assignment}
    (h : read text = .ok a) :
    Lexeme.IsName a.name.toList := by
  unfold read at h
  split at h
  · cases h
  · dsimp only at h
    split at h
    · next hname =>
        split at h
        · cases h
          rw [String.toList_ofList]
          exact isName_iff.mp hname
        · cases h
    · cases h

end Assignment

namespace Lexeme

variable {registry : Registry} {cs : List Char} {kind : TokenKind}
  {number : Option Float}
  {op : Option Operator}

/-- A name is read as a function or as a variable. -/
theorem Spells.of_isName (h : Spells registry cs kind number op)
    (hname : IsName cs) :
    kind = (if registry.contains (String.ofList cs) then .function
            else .identifier)
      ∧ number = none ∧ op = none := by
  have hletter : ∀ c, cs = [c] → ¬ IsSymbol cs := by
    rintro c rfl hsymbol
    have hclasses := classes_of_symbol hsymbol (List.mem_singleton.mpr rfl)
    rw [hname.2 c (List.mem_singleton.mpr rfl)] at hclasses
    cases hclasses.2
  cases h with
  | @operator op hop =>
      have hsymbol : IsSymbol [op.symbol] :=
        isSymbol_of_ofSymbol? (Operator.ofSymbol?_eq_some_iff.mpr ⟨hop, rfl⟩)
      exact absurd hsymbol (hletter _ rfl)
  | leftParen => exact absurd ⟨'(', by decide, rfl⟩ (hletter _ rfl)
  | rightParen => exact absurd ⟨')', by decide, rfl⟩ (hletter _ rfl)
  | comma => exact absurd ⟨',', by decide, rfl⟩ (hletter _ rfl)
  | function _ hknown => simp [hknown]
  | identifier _ hunknown => simp [hunknown]
  | number hnumeral _ =>
      obtain ⟨c, hc⟩ := List.exists_mem_of_ne_nil cs hname.1
      have hpart := isNumeralPart_of_numeral hnumeral hc
      rw [isNumeralPart_letter (hname.2 c hc)] at hpart
      cases hpart

/-- What is read as a variable is a name. -/
theorem Spells.isName (h : Spells registry cs .identifier number op) :
    IsName cs := by
  cases h with
  | identifier hname => exact hname

/-- A text of letters is one run. -/
theorem runs_ofText_name {text : String} (h : IsName text.toList) :
    runs (Glyph.ofText text) = [Glyph.ofText text]
      ∧ charsOf (Glyph.ofText text) = text.toList
      ∧ (Glyph.ofText text).head?.map Glyph.offset = some 0 := by
  have hchars : charsOf (Glyph.ofText text) = text.toList := by
    rw [charsOf, Glyph.chars_ofText, List.filter_eq_self]
    intro c hc
    rw [Assignment.isBlank_of_isAsciiLetter (h.2 c hc)]
    rfl
  have hletter :
      ∀ glyph ∈ Glyph.ofText text, isAsciiLetter glyph.char = true := by
    intro glyph hglyph
    apply h.2
    rw [← hchars]
    exact List.mem_map_of_mem hglyph
  have hne : Glyph.ofText text ≠ [] := by
    intro hnil
    rw [hnil] at hchars
    exact h.1 hchars.symm
  refine ⟨?_, hchars, ?_⟩
  · apply List.splitBy_of_isChain hne
    apply List.Pairwise.isChain
    apply List.pairwise_of_forall_mem_list
    intro glyph hglyph next hnext
    rw [joins, hletter glyph hglyph, hletter next hnext]
    simp
  · obtain ⟨c, rest, hcs⟩ := List.exists_cons_of_ne_nil h.1
    have hblank := Assignment.isBlank_of_isAsciiLetter (h.2 c (by simp [hcs]))
    simp [Glyph.ofText, hcs, hblank]

end Lexeme

-- ================================================================ the scan

/-- Limits within which a name by itself is scanned. -/
structure Limits.AdmitsName (limits : Limits) (name : String) : Prop where
  length : name.length ≤ limits.of .expressionLength
  tokens : 1 ≤ limits.of .tokens

/-- What a name is scanned to: a function or a variable. -/
def Token.ofName (registry : Registry) (name : String) : Token :=
  ⟨if registry.contains name then .function else .identifier, name, 0,
    none, none⟩

open Lexeme in
/-- The token of a text of letters. -/
theorem Token.IsOf.eq_ofName {registry : Registry} {name : String}
    {token : Token} (h : token.IsOf registry (Glyph.ofText name))
    (hname : IsName name.toList) :
    token = .ofName registry name := by
  obtain ⟨-, hchars, hoffset⟩ := runs_ofText_name hname
  obtain ⟨kind, text, position, number, op⟩ := token
  obtain ⟨hspells, htext, hposition⟩ := h
  rw [hchars] at hspells htext
  rw [String.ofList_toList] at htext
  obtain ⟨hkind, hnumber, hop⟩ := hspells.of_isName hname
  have hstart : position = 0 := by
    cases hhead : (Glyph.ofText name).head? with
    | none => simp [hhead] at hoffset
    | some glyph => simp_all
  rw [String.ofList_toList] at hkind
  simp_all [ofName]

open Lexeme in
/-- A text of letters is scanned to one token. -/
theorem Token.scan_name {registry : Registry} {limits : Limits} {name : String}
    (hname : IsName name.toList) (hlimits : limits.AdmitsName name) :
    Token.scan registry limits name
      = .ok [.ofName registry.orBuiltin name] := by
  obtain ⟨hruns, hchars, -⟩ := runs_ofText_name hname
  have hadmitted : Admitted limits 1 (Glyph.ofText name) := by
    refine ⟨?_, hlimits.tokens⟩
    rw [hchars]
    exact .inr (.inl hname)
  have hlands :=
    lands_scanFrom_runs registry.orBuiltin limits name 0 (Glyph.ofText name)
  rw [hruns] at hlands
  rw [scan, Limits.check_eq_ok_iff.mpr hlimits.length]
  show scanFrom registry.orBuiltin limits name 0 (Glyph.ofText name) = _
  generalize scanFrom registry.orBuiltin limits name 0 (Glyph.ofText name)
    = outcome at hlands ⊢
  cases outcome with
  | error d =>
      refine absurd ?_ hlands.not_allAdmitted
      intro i run hrun
      obtain ⟨rfl, rfl⟩ : i = 0 ∧ Glyph.ofText name = run := by
        simpa [List.getElem?_singleton] using hrun
      exact hadmitted
  | ok tokens =>
      obtain ⟨hall, -⟩ := hlands
      cases hall with
      | cons htoken hnil =>
          cases hnil
          rw [htoken.eq_ofName hname]

open Lexeme in
/-- The variables of an expression have names of letters. -/
theorem Token.isName_of_scan {registry : Registry} {limits : Limits}
    {text : String} {tokens : List Token} {token : Token}
    (h : Token.scan registry limits text = .ok tokens)
    (hmem : token ∈ tokens) (hkind : token.kind = .identifier) :
    IsName token.text.toList := by
  obtain ⟨run, -, hof⟩ := exists_lexeme_of_mem (of_scan_ok h) hmem
  have hspells := hof.spells
  rw [hkind] at hspells
  rw [hof.text, String.toList_ofList]
  exact hspells.isName

-- ======================================================== the calculation

namespace NameMap

variable {α : Type} {name : String} {x : α}

/-- Binding other names leaves a name as it was. -/
theorem find?_foldl_insert {bindings : List (String × α)}
    (h : ∀ binding ∈ bindings, binding.1 ≠ name) (map : NameMap α) :
    (bindings.foldl (fun map binding => map.insert binding.1 binding.2)
      map).find? name
      = map.find? name := by
  induction bindings generalizing map with
  | nil => rfl
  | cons binding rest ih =>
      rw [List.forall_mem_cons] at h
      rw [List.foldl_cons, ih h.2, find?_insert, if_neg h.1.symm]

/-- Of the bindings of a name the last one counts. -/
theorem find?_ofList {before after : List (String × α)}
    (h : ∀ binding ∈ after, binding.1 ≠ name) :
    (ofList (before ++ (name, x) :: after)).find? name = some x := by
  rw [ofList, List.foldl_append, List.foldl_cons, find?_foldl_insert h,
    find?_insert, if_pos rfl]

end NameMap

variable {m : Type → Type} [Monad m] [LawfulMonad m]

/-- A variable that is bound is put on the stack, if that may hold anything. -/
theorem Evaluation.run_bound_variable {ctx : Context} {resolver : Resolver m}
    {token : Token} {bindings : Bindings} {x : Float}
    (hkind : token.kind = .identifier)
    (hbound : bindings.find? token.text = some x)
    (hdepth : 1 ≤ ctx.limits.of .stackDepth) :
    run ctx resolver [token] [] bindings = pure (.ok [x], bindings) := by
  have hcheck : checkDepth ctx token [x] = .ok [x] := by
    rw [checkDepth, Limits.check_eq_ok_iff.mpr (by simpa using hdepth)]
  have hpush :
      step ctx resolver token [] bindings = pure (.ok [x], bindings) := by
    simp only [step, hkind, variableValue_bound hbound, pure_bind]
    rfl
  have hbind : (Except.ok [x]).bind (checkDepth ctx token) = .ok [x] := hcheck
  rw [run, hpush, pure_bind]
  simp only [hbind]
  rfl

/-- A bound variable by itself has its value, and nobody is asked. -/
theorem Calculator.evaluate_bound_name (c : Calculator) (resolver : Resolver m)
    {name : String} {x : Float} (hname : Lexeme.IsName name.toList)
    (hlimits : c.settings.limits.AdmitsName name)
    (hdepth : 1 ≤ c.settings.limits.of .stackDepth)
    (hvariable : c.functions.orBuiltin.contains name = false)
    (hbound : c.bindings.find? name = some x) :
    c.evaluate resolver name = pure (.ok x, c) := by
  let token : Token := ⟨.identifier, name, 0, none, none⟩
  have htoken : Token.ofName c.functions.orBuiltin name = token := by
    rw [Token.ofName, hvariable]
    rfl
  have hform : c.toPostfix name = .ok [token] := by
    rw [toPostfix, Token.scan_name hname hlimits, htoken]
    rfl
  have hrun :
      Evaluation.run (c.context name).orStandard resolver [token] [] c.bindings
      = pure (.ok [x], c.bindings) :=
    Evaluation.run_bound_variable rfl hbound hdepth
  have hvalue : evaluatePostfix (c.context name) resolver [token] c.bindings
      = pure (.ok x, c.bindings) := by
    simp only [evaluatePostfix, hrun, pure_bind]
    rfl
  simp only [evaluate, hform, hvalue, pure_bind]

-- ======================================================== the agreement

namespace Assignment

/-- The name of an assignment is scanned to one token that has it as its text,
a variable unless it is the name of a function. If it is not, then on a
calculator made with assignments of which this is the last for its name it
comes to the value assigned, and nobody is asked. The other way round, every
variable of an expression can be assigned every text of a number. -/
theorem read_agrees_with_scan {m : Type → Type} [Monad m] [LawfulMonad m] :
    (∀ text a, read text = .ok a → ∀ settings : Settings,
      settings.limits.AdmitsName a.name →
        Token.scan .builtin settings.limits a.name
          = .ok [.ofName .builtin a.name]
        ∧ (1 ≤ settings.limits.of .stackDepth →
          Registry.builtin.contains a.name = false →
          ∀ (resolver : Resolver m) (before after : List Assignment),
            (∀ later ∈ after, later.name ≠ a.name) →
            let c : Calculator := .new settings .builtin
              ((before ++ a :: after).map
                fun given => (given.name, given.value))
            c.evaluate resolver a.name = pure (.ok a.value, c)))
    ∧ ∀ registry limits text tokens token,
        Token.scan registry limits text = .ok tokens → token ∈ tokens →
        token.kind = .identifier → ∀ raw x, Decimal.read? raw = some x →
          read (token.text ++ "=" ++ raw) = .ok ⟨token.text, x⟩ := by
  refine ⟨fun text a hread settings hlimits => ?_,
    fun registry limits text tokens token hscan hmem hkind raw x hraw => ?_⟩
  · have hname := isName_of_read hread
    refine ⟨Token.scan_name hname hlimits,
      fun hdepth hvariable resolver before after hlast => ?_⟩
    refine Calculator.evaluate_bound_name _ resolver hname hlimits hdepth
      hvariable ?_
    rw [Calculator.new, List.map_append, List.map_cons]
    exact NameMap.find?_ofList (by simpa using hlast)
  · have hname := isName_iff.mpr (Token.isName_of_scan hscan hmem hkind)
    have hvalue : Decimal.read? (String.ofList raw.toList) = some x := by
      rw [String.ofList_toList]
      exact hraw
    have hread := read_eq_ok hname hvalue
    -- the texts are compared as lists of characters
    have htext : token.text ++ "=" ++ raw
        = String.ofList (token.text.toList ++ '=' :: raw.toList) := by
      rw [← String.toList_inj]
      simp
    rw [String.ofList_toList] at hread
    rw [htext]
    exact hread

/-- A variable that is assigned twice, and one of an expression. -/
theorem read_agrees_with_scan_last_rate :
    let a : Assignment := ⟨"rate", -2.5⟩
    let settings : Settings := { limits := ⟨4, 1, 1⟩ }
    let c : Calculator :=
      .new settings .builtin [("rate", 1.0), ("rate", -2.5), ("x", 3.0)]
    let token : Token := ⟨.identifier, "ab", 2, none, none⟩
    read "\trate = -2.5 " = .ok a ∧ settings.limits.AdmitsName a.name
      ∧ Token.scan .builtin settings.limits "rate"
        = .ok [⟨.identifier, "rate", 0, none, none⟩]
      ∧ c.evaluate (Resolver.ofMap .empty : Resolver Id).logged "rate"
        = (pure (.ok (-2.5), c) : StateT (List String) Id _)
      ∧ Token.scan .builtin {} "2*ab" = .ok [⟨.number, "2", 0, some 2.0, none⟩,
        ⟨.operator, "*", 1, none, some .multiply⟩, token]
      ∧ read "ab=1_0" = .ok ⟨"ab", 10.0⟩ := by
  intro a settings c token
  have hread : read "\trate = -2.5 " = .ok a :=
    eq_ok_of_toOption (by decide +kernel)
  have hlimits : settings.limits.AdmitsName a.name := ⟨by decide, by decide⟩
  have hscan :
      Token.scan .builtin {} "2*ab" = .ok [⟨.number, "2", 0, some 2.0, none⟩,
      ⟨.operator, "*", 1, none, some .multiply⟩, token] :=
    eq_ok_of_toOption (by decide +kernel)
  obtain ⟨hassigned, hvariables⟩ :=
    read_agrees_with_scan (m := StateT (List String) Id)
  obtain ⟨hone, hvalue⟩ := hassigned _ a hread settings hlimits
  refine ⟨hread, hlimits, hone, ?_, hscan, ?_⟩
  · exact hvalue (by decide) (by decide) _ [⟨"rate", 1.0⟩] [⟨"x", 3.0⟩]
      (by simp [a])
  · exact hvariables _ _ _ _ token hscan (by simp) rfl "1_0" 10.0
      (by decide +kernel)

/-- A function may be assigned, but it is not scanned as a variable, and
what was assigned is no value of it. -/
theorem assigned_function_name :
    let a : Assignment := ⟨"sin", 3.0⟩
    let settings : Settings := {}
    let c : Calculator := .new settings .builtin [("sin", 3.0)]
    read "sin=3" = .ok a ∧ settings.limits.AdmitsName a.name
      ∧ Token.scan .builtin settings.limits a.name
        = .ok [⟨.function, "sin", 0, none, none⟩]
      ∧ c.evaluate (Resolver.ofMap .empty : Resolver Id) a.name
        = (.error (.at (.callWithoutParens "sin") 0 "sin"), c) := by
  intro a settings c
  have hname : Lexeme.IsName a.name.toList := isName_iff.mp (by decide)
  have hlimits : settings.limits.AdmitsName a.name := ⟨by decide, by decide⟩
  have hscan : Token.scan .builtin settings.limits a.name
      = .ok [⟨.function, "sin", 0, none, none⟩] :=
    Token.scan_name hname hlimits
  have hform : c.toPostfix a.name
      = .error (.at (.callWithoutParens "sin") 0 "sin") := by
    have hlimits : c.settings.limits.AdmitsName a.name := hlimits
    rw [Calculator.toPostfix, Token.scan_name hname hlimits]
    rfl
  exact ⟨eq_ok_of_toOption (by decide +kernel), hlimits, hscan,
    Calculator.evaluate_of_toPostfix_error hform⟩

end Assignment

end Reckoner
