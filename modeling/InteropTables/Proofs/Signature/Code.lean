import InteropTables.Proofs.Compressed
import InteropTables.Signature.Decode

/-!
# The forms in which a signature may stand in a blob

A signature has many forms: numbers are packed in any of their lengths, arrays carry sizes and
bounds that no type keeps, and custom modifiers stand in front of types. This file says which bytes
are a form of which signature, and how many nesting levels reading them opens.

* `ModifiersCode`: chains of custom modifiers;
* `TypeCode`, `ParamCode`, `MethodCode`: the forms of types, parameters and method signatures, each
  with its nesting: **one level for every type and method signature, and one more for a chain of
  modifiers where reading a type meets it** (`InnerCode`);
* `SigType.isWellFormed`, `SigMethod.isWellFormed`: the signatures that have a form and that no
  other signature shares its forms with;
* `SigType.code`, `SigMethod.code`: the plain form, without modifiers, sizes and bounds;
* `typeCode_code`, `methodCode_code`: **every well-formed signature has its plain form.**
-/

namespace InteropTables

open Reader

namespace Signature

/-! ## 1. Modifiers and lists of numbers -/

/-- One custom modifier: its mark and the number of a type in one of the tables of types. -/
inductive ModifierCode : List UInt8 → Prop where
  | mk {b : UInt8} {n : Nat} {bytes : List UInt8} (mark : isModifier b = true)
      (number : NumberCode n bytes) (tag : n % 4 ≠ 3) : ModifierCode (b :: bytes)

/-- A chain of custom modifiers, perhaps an empty one. -/
inductive ModifiersCode : List UInt8 → Prop where
  | nil : ModifiersCode []
  | cons {front behind : List UInt8} (first : ModifierCode front) (more : ModifiersCode behind) :
      ModifiersCode (front ++ behind)

/-- A list of numbers behind its length. -/
inductive NumbersCode : List UInt8 → Prop where
  | mk {ns : List Nat} {count body : List UInt8} (length : NumberCode ns.length count)
      (numbers : ListCode NumberCode ns body) : NumbersCode (count ++ body)

/-- The number of generic parameters; it is left out when the first byte of the signature says so,
and then there are none. -/
inductive GenericCode (lead : UInt8) : Nat → List UInt8 → Prop where
  | counted {n : Nat} {bytes : List UInt8} (flag : (lead &&& 0x10 != 0) = true)
      (number : NumberCode n bytes) : GenericCode lead n bytes
  | none (flag : (lead &&& 0x10 != 0) = false) : GenericCode lead 0 []

/-! ## 2. Types, parameters and methods -/

mutual

/-- The forms of a type without modifiers in front of it, and the levels that reading opens. -/
inductive TypeCode : SigType → List UInt8 → Nat → Prop where
  | element (e : Element) : TypeCode (.element e) [e.code] 1
  | pointer {t : SigType} {ms bs : List UInt8} {n : Nat} (modifiers : ModifiersCode ms)
      (target : TypeCode t bs n) : TypeCode (.pointer t) (0x0F :: (ms ++ bs)) (n + 1)
  | byRef {t : SigType} {bs : List UInt8} {n : Nat} (target : InnerCode t bs n) :
      TypeCode (.byRef t) (0x10 :: bs) (n + 1)
  | pinned {t : SigType} {bs : List UInt8} {n : Nat} (type : InnerCode t bs n) :
      TypeCode (.pinned t) (0x45 :: bs) (n + 1)
  | valueType {k : Token} {bs : List UInt8} (token : TokenCode k bs) :
      TypeCode (.valueType k) (0x11 :: bs) 1
  | classType {k : Token} {bs : List UInt8} (token : TokenCode k bs) :
      TypeCode (.classType k) (0x12 :: bs) 1
  | typeVariable {i : Nat} {bs : List UInt8} (number : NumberCode i bs) :
      TypeCode (.typeVariable i) (0x13 :: bs) 1
  | methodVariable {i : Nat} {bs : List UInt8} (number : NumberCode i bs) :
      TypeCode (.methodVariable i) (0x1E :: bs) 1
  | array {t : SigType} {rank : Nat} {bs rs ss ls : List UInt8} {n : Nat}
      (element : InnerCode t bs n) (dimensions : NumberCode rank rs) (sizes : NumbersCode ss)
      (bounds : NumbersCode ls) :
      TypeCode (.array t rank) (0x14 :: (bs ++ (rs ++ (ss ++ ls)))) (n + 1)
  | vector {t : SigType} {ms bs : List UInt8} {n : Nat} (modifiers : ModifiersCode ms)
      (element : TypeCode t bs n) : TypeCode (.vector t) (0x1D :: (ms ++ bs)) (n + 1)
  | instantiation {t : SigType} {ts : List SigType} {bs cs as : List UInt8} {n k : Nat}
      (base : TypeCode t bs n) (count : NumberCode ts.length cs) (arguments : TypesCode ts as k) :
      TypeCode (.instantiation t ts) (0x15 :: (bs ++ (cs ++ as))) (max n k + 1)
  | functionPointer {m : SigMethod} {bs : List UInt8} {n : Nat} (signature : MethodCode m bs n) :
      TypeCode (.functionPointer m) (0x1B :: bs) (n + 1)

/-- The forms of a type where a chain of modifiers is met by reading the type itself: the chain
opens a level of its own. -/
inductive InnerCode : SigType → List UInt8 → Nat → Prop where
  | plain {t : SigType} {bs : List UInt8} {n : Nat} (type : TypeCode t bs n) : InnerCode t bs n
  | modified {t : SigType} {front ms bs : List UInt8} {n : Nat} (first : ModifierCode front)
      (more : ModifiersCode ms) (type : TypeCode t bs n) :
      InnerCode t (front ++ (ms ++ bs)) (n + 1)

/-- The forms of a list of types. -/
inductive TypesCode : List SigType → List UInt8 → Nat → Prop where
  | nil : TypesCode [] [] 0
  | cons {t : SigType} {ts : List SigType} {bs as : List UInt8} {n k : Nat}
      (head : InnerCode t bs n) (tail : TypesCode ts as k) :
      TypesCode (t :: ts) (bs ++ as) (max n k)

/-- The forms of a parameter or result: modifiers, the mark of a reference if it is one, and the
type, in front of which a reference may have modifiers again. -/
inductive ParamCode : SigParam → List UInt8 → Nat → Prop where
  | value {t : SigType} {ms bs : List UInt8} {n : Nat} (modifiers : ModifiersCode ms)
      (type : TypeCode t bs n) : ParamCode ⟨false, t⟩ (ms ++ bs) n
  | reference {t : SigType} {ms bs : List UInt8} {n : Nat} (modifiers : ModifiersCode ms)
      (type : InnerCode t bs n) : ParamCode ⟨true, t⟩ (ms ++ byRefCode :: bs) n

/-- The forms of a list of parameters. -/
inductive ParamsCode : List SigParam → List UInt8 → Nat → Prop where
  | nil : ParamsCode [] [] 0
  | cons {p : SigParam} {ps : List SigParam} {bs as : List UInt8} {n k : Nat}
      (head : ParamCode p bs n) (tail : ParamsCode ps as k) :
      ParamsCode (p :: ps) (bs ++ as) (max n k)

/-- The forms of the parameters that are not fixed: a sentinel stands in front of the first. -/
inductive VarargsCode : List SigParam → List UInt8 → Nat → Prop where
  | none : VarargsCode [] [] 0
  | some {p : SigParam} {ps : List SigParam} {bs as : List UInt8} {n k : Nat}
      (head : ParamCode p bs n) (tail : ParamsCode ps as k) :
      VarargsCode (p :: ps) (sentinelCode :: (bs ++ as)) (max n k)

/-- The forms of a method signature. The top bit of the first byte has no meaning. -/
inductive MethodCode : SigMethod → List UInt8 → Nat → Prop where
  | mk {lead : UInt8} {genericCount : Nat} {result : SigParam} {params varargs : List SigParam}
      {gs cs rs ps vs : List UInt8} {n k l : Nat} (generic : GenericCode lead genericCount gs)
      (count : NumberCode (params.length + varargs.length) cs) (back : ParamCode result rs n)
      (fixed : ParamsCode params ps k) (extra : VarargsCode varargs vs l) :
      MethodCode ⟨lead &&& 0x20 != 0, lead &&& 0x40 != 0, lead.toNat % 16, genericCount, result,
        params, varargs⟩ (lead :: (gs ++ (cs ++ (rs ++ (ps ++ vs))))) (max n (max k l) + 1)

end

/-! ## 3. Well-formed signatures -/

/-- The base of a generic instance names a class or a value type. -/
def isGenericBase : SigType → Bool
  | .valueType _ => true
  | .classType _ => true
  | _ => false

/-- A type that starts with the mark of a reference. -/
def isReference : SigType → Bool
  | .byRef _ => true
  | _ => false

/-- A token names a row in one of the tables of types. -/
def namesType (k : Token) : Bool :=
  typeTables.contains k.table

end Signature

open Signature

mutual

/-- Tokens name types, numbers fit their packed form, and a generic instance has a named base. -/
def SigType.isWellFormed : SigType → Bool
  | .element _ => true
  | .pointer t => t.isWellFormed
  | .byRef t => t.isWellFormed
  | .pinned t => t.isWellFormed
  | .valueType k => namesType k
  | .classType k => namesType k
  | .typeVariable i => i < compressedSpan
  | .methodVariable i => i < compressedSpan
  | .array t rank => t.isWellFormed && rank < compressedSpan
  | .vector t => t.isWellFormed
  | .instantiation t ts =>
    isGenericBase t && t.isWellFormed && ts.length < compressedSpan && areWellFormedTypes ts
  | .functionPointer m => m.isWellFormed

/-- The type is well formed, and its form does not start like that of a reference to another
type. -/
def SigParam.isWellFormed : SigParam → Bool
  | ⟨byRef, t⟩ => (byRef || !isReference t) && t.isWellFormed

/-- The calling convention is one of methods, and numbers fit their packed form. -/
def SigMethod.isWellFormed : SigMethod → Bool
  | ⟨_, _, convention, genericCount, result, params, varargs⟩ =>
    convention < 16 && isMethodConvention convention && genericCount < compressedSpan &&
      params.length + varargs.length < compressedSpan && result.isWellFormed &&
      areWellFormedParams params && areWellFormedParams varargs

def areWellFormedTypes : List SigType → Bool
  | [] => true
  | t :: ts => t.isWellFormed && areWellFormedTypes ts

def areWellFormedParams : List SigParam → Bool
  | [] => true
  | p :: ps => p.isWellFormed && areWellFormedParams ps

end

/-! ## 4. The plain form -/

/-- The shortest form of a type token. -/
def Token.code (k : Token) : List UInt8 :=
  compress (4 * k.row + typeTables.idxOf k.table)

theorem tokenCode_code {k : Token} (h : namesType k = true) : TokenCode k k.code := by
  have htable : k.table ∈ typeTables := List.contains_iff_mem.1 h
  have hlt : typeTables.idxOf k.table < typeTables.length := List.idxOf_lt_length_of_mem htable
  have hget : typeTables[typeTables.idxOf k.table]? = some k.table := by
    rw [List.getElem?_eq_getElem hlt, List.getElem_idxOf]
  have htag : typeTables.idxOf k.table < 3 := hlt
  have hrow : k.row < 0x1000000 := k.row_lt
  have hnumber : NumberCode (4 * k.row + typeTables.idxOf k.table) k.code := by
    apply numberCode_compress
    show _ < 0x20000000
    omega
  have hcode := TokenCode.mk hget k.row_lt hnumber
  rwa [Token.ofParts_table_row] at hcode

/-- The first byte of a method signature. -/
def Signature.leadOf (hasThis explicitThis isGeneric : Bool) (convention : Nat) : UInt8 :=
  UInt8.ofNat (convention + (if isGeneric then 0x10 else 0) + (if hasThis then 0x20 else 0) +
    (if explicitThis then 0x40 else 0))

theorem Signature.leadOf_flags (hasThis explicitThis isGeneric : Bool) {convention : Nat}
    (h : convention < 16) :
    let lead := leadOf hasThis explicitThis isGeneric convention
    (lead &&& 0x20 != 0) = hasThis ∧ (lead &&& 0x40 != 0) = explicitThis ∧
      (lead &&& 0x10 != 0) = isGeneric ∧ lead.toNat % 16 = convention := by
  have key : ∀ (a b c : Bool) (k : Fin 16), (leadOf a b c k &&& 0x20 != 0) = a ∧
      (leadOf a b c k &&& 0x40 != 0) = b ∧ (leadOf a b c k &&& 0x10 != 0) = c ∧
      (leadOf a b c k).toNat % 16 = k := by decide
  exact key hasThis explicitThis isGeneric ⟨convention, h⟩

mutual

/-- The form of a type without modifiers, sizes and bounds. -/
def SigType.code : SigType → List UInt8
  | .element e => [e.code]
  | .pointer t => 0x0F :: t.code
  | .byRef t => 0x10 :: t.code
  | .pinned t => 0x45 :: t.code
  | .valueType k => 0x11 :: k.code
  | .classType k => 0x12 :: k.code
  | .typeVariable i => 0x13 :: compress i
  | .methodVariable i => 0x1E :: compress i
  | .array t rank => 0x14 :: (t.code ++ (compress rank ++ (compress 0 ++ compress 0)))
  | .vector t => 0x1D :: t.code
  | .instantiation t ts => 0x15 :: (t.code ++ (compress ts.length ++ codeOfTypes ts))
  | .functionPointer m => 0x1B :: m.code

/-- The form of a parameter without modifiers. -/
def SigParam.code : SigParam → List UInt8
  | ⟨byRef, t⟩ => (if byRef then [byRefCode] else []) ++ t.code

/-- The form of a method signature without modifiers, sizes and bounds. -/
def SigMethod.code : SigMethod → List UInt8
  | ⟨hasThis, explicitThis, convention, genericCount, result, params, varargs⟩ =>
    leadOf hasThis explicitThis (genericCount != 0) convention ::
      ((if genericCount = 0 then [] else compress genericCount) ++
        (compress (params.length + varargs.length) ++ (result.code ++ (codeOfParams params ++
          ((if varargs.isEmpty then [] else [sentinelCode]) ++ codeOfParams varargs)))))

def codeOfTypes : List SigType → List UInt8
  | [] => []
  | t :: ts => t.code ++ codeOfTypes ts

def codeOfParams : List SigParam → List UInt8
  | [] => []
  | p :: ps => p.code ++ codeOfParams ps

end

mutual

/-- The levels that reading the plain form of a type opens. -/
def SigType.nesting : SigType → Nat
  | .element _ => 1
  | .pointer t => t.nesting + 1
  | .byRef t => t.nesting + 1
  | .pinned t => t.nesting + 1
  | .valueType _ => 1
  | .classType _ => 1
  | .typeVariable _ => 1
  | .methodVariable _ => 1
  | .array t _ => t.nesting + 1
  | .vector t => t.nesting + 1
  | .instantiation t ts => max t.nesting (nestingOfTypes ts) + 1
  | .functionPointer m => m.nesting + 1

/-- The levels that reading the plain form of a parameter opens. -/
def SigParam.nesting : SigParam → Nat
  | ⟨_, t⟩ => t.nesting

/-- The levels that reading the plain form of a method signature opens. -/
def SigMethod.nesting : SigMethod → Nat
  | ⟨_, _, _, _, r, ps, vs⟩ => max r.nesting (max (nestingOfParams ps) (nestingOfParams vs)) + 1

def nestingOfTypes : List SigType → Nat
  | [] => 0
  | t :: ts => max t.nesting (nestingOfTypes ts)

def nestingOfParams : List SigParam → Nat
  | [] => 0
  | p :: ps => max p.nesting (nestingOfParams ps)

end

theorem genericCode_code {lead : UInt8} {n : Nat} (hflag : (lead &&& 0x10 != 0) = (n != 0))
    (hn : n < compressedSpan) : GenericCode lead n (if n = 0 then [] else compress n) := by
  by_cases h : n = 0
  · subst h
    exact .none hflag
  · rw [if_neg h]
    exact .counted (hflag.trans (bne_iff_ne.2 h)) (numberCode_compress hn)

/-- No sizes, and no bounds. -/
theorem numbersCode_zero : NumbersCode (compress 0) := by
  have h : NumbersCode (compress ([] : List Nat).length ++ []) :=
    .mk (numberCode_compress (by decide)) .nil
  rwa [List.append_nil] at h

mutual

/-- **Every well-formed type has its plain form.** -/
theorem typeCode_code : ∀ {t : SigType}, t.isWellFormed = true → TypeCode t t.code t.nesting
  | .element e, _ => .element e
  | .pointer _, h => .pointer .nil (typeCode_code h)
  | .byRef _, h => .byRef (.plain (typeCode_code h))
  | .pinned _, h => .pinned (.plain (typeCode_code h))
  | .valueType _, h => .valueType (tokenCode_code h)
  | .classType _, h => .classType (tokenCode_code h)
  | .typeVariable _, h => .typeVariable (numberCode_compress (of_decide_eq_true h))
  | .methodVariable _, h => .methodVariable (numberCode_compress (of_decide_eq_true h))
  | .array _ _, h => by
      simp only [SigType.isWellFormed, Bool.and_eq_true, decide_eq_true_eq] at h
      exact .array (.plain (typeCode_code h.1)) (numberCode_compress h.2) numbersCode_zero
        numbersCode_zero
  | .vector _, h => .vector .nil (typeCode_code h)
  | .instantiation _ _, h => by
      simp only [SigType.isWellFormed, Bool.and_eq_true, decide_eq_true_eq] at h
      exact .instantiation (typeCode_code h.1.1.2) (numberCode_compress h.1.2)
        (typesCode_code h.2)
  | .functionPointer _, h => .functionPointer (methodCode_code h)

theorem paramCode_code : ∀ {p : SigParam}, p.isWellFormed = true → ParamCode p p.code p.nesting
  | ⟨false, _⟩, h => by
      simp only [SigParam.isWellFormed, Bool.and_eq_true] at h
      exact .value .nil (typeCode_code h.2)
  | ⟨true, _⟩, h => by
      simp only [SigParam.isWellFormed, Bool.and_eq_true] at h
      exact .reference .nil (.plain (typeCode_code h.2))

/-- **Every well-formed method signature has its plain form.** -/
theorem methodCode_code : ∀ {m : SigMethod}, m.isWellFormed = true →
    MethodCode m m.code m.nesting
  | ⟨hasThis, explicitThis, convention, genericCount, result, params, varargs⟩, h => by
      simp only [SigMethod.isWellFormed, Bool.and_eq_true, decide_eq_true_eq] at h
      obtain ⟨⟨⟨⟨⟨⟨hconv, _⟩, hgeneric⟩, hcount⟩, hresult⟩, hparams⟩, hvarargs⟩ := h
      obtain ⟨hthis, hexplicit, hflag, hlow⟩ :=
        leadOf_flags hasThis explicitThis (genericCount != 0) hconv
      have hcode := MethodCode.mk (genericCode_code hflag hgeneric) (numberCode_compress hcount)
        (paramCode_code hresult) (paramsCode_code hparams) (varargsCode_code hvarargs)
      rwa [hthis, hexplicit, hlow] at hcode

theorem typesCode_code : ∀ {ts : List SigType}, areWellFormedTypes ts = true →
    TypesCode ts (codeOfTypes ts) (nestingOfTypes ts)
  | [], _ => .nil
  | _ :: _, h => by
      simp only [areWellFormedTypes, Bool.and_eq_true] at h
      exact .cons (.plain (typeCode_code h.1)) (typesCode_code h.2)

theorem paramsCode_code : ∀ {ps : List SigParam}, areWellFormedParams ps = true →
    ParamsCode ps (codeOfParams ps) (nestingOfParams ps)
  | [], _ => .nil
  | _ :: _, h => by
      simp only [areWellFormedParams, Bool.and_eq_true] at h
      exact .cons (paramCode_code h.1) (paramsCode_code h.2)

theorem varargsCode_code : ∀ {ps : List SigParam}, areWellFormedParams ps = true →
    VarargsCode ps ((if ps.isEmpty then [] else [sentinelCode]) ++ codeOfParams ps)
      (nestingOfParams ps)
  | [], _ => .none
  | p :: ps, h => by
      simp only [areWellFormedParams, Bool.and_eq_true] at h
      show VarargsCode (p :: ps) (sentinelCode :: (p.code ++ codeOfParams ps)) _
      exact .some (paramCode_code h.1) (paramsCode_code h.2)

end

end InteropTables
