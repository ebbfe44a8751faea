import Mathlib.Data.Nat.Digits.Defs
import InteropTables.Proofs.Assembly.NamingRoom
import InteropTables.Proofs.Assembly.Unfolding
import InteropTables.Proofs.Signature.Positions

/-!
# Lengths of full names

Every type in a signature adds a share to the full name that is made of it: the name of a row of the
module, a mark, or the digits of a position, and what stands around the arguments of an instance.
Only arrays add more than a share. They are written with a comma for each dimension behind the
first one, and the number of dimensions is read from the signature as it stands there.

* `Assembly.longestName`, `Assembly.share`: the longest name of a row, and the share of a type;
* `SigType.overhang`: the dimensions beyond those that a share has room for;
* `length_arraySuffix`: an array has a character more than dimensions;
* `length_describeWithin`: **a name is no longer than the shares of its types and its overhang**;
* `names_within_shares`: **the names of a method by the length of its signature**;
* `wide_array_outgrows_shares`: an array in a short signature, with a name beyond all shares.
-/

namespace InteropTables

open Reader

/-! ## 1. Measures -/

/-- The dimensions of an array that the share of a type has room for. -/
def roomyRank : Nat := 31

mutual

/-- The dimensions of the arrays in a type beyond those that there is room for. The types behind a
pointer to a function have no part in its name. -/
def SigType.overhang : SigType → Nat
  | .element _ => 0
  | .pointer t => t.overhang
  | .byRef t => t.overhang
  | .pinned t => t.overhang
  | .valueType _ => 0
  | .classType _ => 0
  | .typeVariable _ => 0
  | .methodVariable _ => 0
  | .array t rank => t.overhang + (rank - roomyRank)
  | .vector t => t.overhang
  | .instantiation t ts => t.overhang + overhangOfTypes ts
  | .functionPointer _ => 0

/-- The dimensions of the arrays in a list of types beyond those that there is room for. -/
def overhangOfTypes : List SigType → Nat
  | [] => 0
  | t :: ts => t.overhang + overhangOfTypes ts

end

/-- What is asked of a type: none of its tokens refers to a type specification, and its positions
are below the span of the packed form. -/
structure SigType.Modest (t : SigType) : Prop where
  tokens : ∀ k ∈ t.tokens, k.table ≠ TableId.typeSpec.number
  positions : t.Positioned

/-- Each type of a list is asked for what is asked of the list. -/
theorem modest_of_mem {ts : List SigType}
    (htokens : ∀ k ∈ tokensOfTypes ts, k.table ≠ TableId.typeSpec.number)
    (hpositions : ∀ t ∈ ts, t.Positioned) : ∀ t ∈ ts, t.Modest := by
  induction ts with
  | nil => exact List.forall_mem_nil _
  | cons t ts ih =>
    rw [tokensOfTypes, List.forall_mem_append] at htokens
    rw [List.forall_mem_cons] at hpositions ⊢
    exact ⟨⟨htokens.1, hpositions.1⟩, ih htokens.2 hpositions.2⟩

namespace Assembly

/-- The full names of the types of a module and of those that it refers to. -/
def fullNames (a : Assembly) : List String :=
  a.types.toList.map (·.name.full) ++ a.references.toList.map (·.full)

/-- The length of the longest of them. -/
def longestName (a : Assembly) : Nat :=
  (a.fullNames.map String.length).max?.getD 0

/-- What a type adds to a name at most, arrays with many dimensions apart. -/
def share (a : Assembly) : Nat :=
  a.longestName + 32

variable {a : Assembly}

theorem length_le_longestName {name : String} (h : name ∈ a.fullNames) :
    name.length ≤ a.longestName :=
  List.le_max?_getD_of_mem (List.mem_map_of_mem h)

/-! ## 2. Single steps of naming -/

theorem length_describe (e : Element) : e.describe.full.length ≤ 21 := by
  cases e <;> decide

/-- A position has no more digits than the span of the packed form. -/
theorem length_genericParameter {i : Nat} (h : i < compressedSpan) (ofMethod : Bool) :
    (TypeDescriptor.genericParameter i ofMethod).full.length ≤ 11 := by
  have hspan : compressedSpan ≤ 10 ^ 9 := by decide
  have hdigits : (toString i).length ≤ 9 :=
    Nat.repr_length i 9 (by decide) (Nat.lt_of_lt_of_le h hspan)
  have hmark : (if ofMethod then "!!" else "!").length ≤ 2 := by
    cases ofMethod <;> decide
  rw [TypeDescriptor.genericParameter, String.length_append]
  omega

/-- An array has a character more than dimensions, and a vector two. -/
theorem length_arraySuffix (rank : Nat) :
    (TypeDescriptor.arraySuffix (rank + 2)).length = rank + 3 := by
  have hcommas : (String.ofList (List.replicate (rank + 1) ',')).length = rank + 1 := by
    rw [String.length_ofList, List.length_replicate]
  rw [TypeDescriptor.arraySuffix, String.length_append, String.length_append, hcommas]
  show 1 + (rank + 1) + 1 = rank + 3
  omega

/-- So what an array adds is more than a share only by its overhang. -/
theorem length_arraySuffix_le (rank : Nat) :
    (TypeDescriptor.arraySuffix (max rank 1)).length ≤ 32 + (rank - roomyRank) := by
  match rank with
  | 0 | 1 => decide
  | rank + 2 =>
    have hrank : max (rank + 2) 1 = rank + 2 := Nat.max_eq_left (by omega)
    rw [hrank, length_arraySuffix, roomyRank]
    omega

/-- The characters of a list with a separator, if every part leaves room for one. -/
theorem length_intercalate_le (parts : List String) :
    (",".intercalate parts).length ≤ (parts.map fun part => part.length + 1).sum := by
  induction parts with
  | nil => exact Nat.le_refl _
  | cons part parts ih =>
    cases parts with
    | nil => rw [String.intercalate_singleton]; simp
    | cons next parts =>
      rw [String.intercalate_cons_cons, String.length_append, String.length_append, List.map_cons,
        List.sum_cons]
      have hcomma : ",".length = 1 := rfl
      omega

/-- The arguments of an instance stand in brackets of their own, and together in another pair. -/
theorem length_instantiate (t : TypeDescriptor) (arguments : List TypeDescriptor) :
    (t.instantiate arguments).full.length
      ≤ t.full.length + 2 + (arguments.map fun argument => argument.full.length + 3).sum := by
  have hlisted := length_intercalate_le (arguments.map fun argument => "[" ++ argument.full ++ "]")
  have hparts : ∀ argument : TypeDescriptor,
      ("[" ++ argument.full ++ "]").length + 1 = argument.full.length + 3 := by
    intro argument
    rw [String.length_append, String.length_append]
    show 1 + argument.full.length + 1 + 1 = argument.full.length + 3
    omega
  simp only [List.map_map, Function.comp_def, hparts] at hlisted
  rw [TypeDescriptor.instantiate, String.length_append, String.length_append, String.length_append]
  show t.full.length + 1 + _ + 1 ≤ _
  omega

/-! ## 3. Names of types -/

/-- The name of a type, with room for what stands around it among arguments. -/
def WithinShares (a : Assembly) (type : SigType) (t : TypeDescriptor) : Prop :=
  t.full.length + 3 ≤ type.nodes * a.share + type.overhang

/-- A type that is no part of another one has its own share. -/
theorem withinShares_of_le {type : SigType} {t : TypeDescriptor}
    (h : t.full.length ≤ a.longestName + 29) : a.WithinShares type t := by
  have hnodes : a.share ≤ type.nodes * a.share :=
    Nat.le_mul_of_pos_left _ (Signature.nodes_pos type)
  rw [WithinShares]
  rw [share] at hnodes ⊢
  omega

/-- A type around another one has a share more. -/
theorem WithinShares.around {inner type : SigType} {t t' : TypeDescriptor} {n k : Nat}
    (h : a.WithinShares inner t) (hnodes : type.nodes = inner.nodes + 1)
    (hoverhang : type.overhang = inner.overhang + k) (hlength : t'.full.length = t.full.length + n)
    (hn : n ≤ 32 + k) : a.WithinShares type t' := by
  rw [WithinShares] at h ⊢
  rw [hnodes, hoverhang, hlength, Nat.succ_mul]
  have hshare : 32 ≤ a.share := Nat.le_add_left ..
  omega

/-- A row that a token names is a type of the module or a reference, if it is no specification. -/
theorem exists_of_describeToken {inner : SigType → Except Fault TypeDescriptor} {token : Token}
    {isValueType : Bool} {t : TypeDescriptor} (htoken : token.table ≠ TableId.typeSpec.number)
    (h : a.describeToken inner token isValueType = .ok t) :
    ∃ name : TypeName, name.full ∈ a.fullNames ∧ t = .named name isValueType := by
  obtain ⟨table, name, htable, -, hrow, rfl⟩ | ⟨_, _, hspecification, -⟩ := describeToken_cases h
  · have hmem : name ∈ (a.typeNames table).toList := Array.mem_toList_iff.2 (mem_of_rowOf? hrow)
    refine ⟨name, ?_, rfl⟩
    obtain rfl | rfl := htable
    · rw [typeNames, Array.toList_map] at hmem
      obtain ⟨type, htype, rfl⟩ := List.mem_map.1 hmem
      exact List.mem_append_left _ (List.mem_map_of_mem htype)
    · exact List.mem_append_right _ (List.mem_map_of_mem hmem)
  · exact absurd hspecification htoken

/-- The names of types, one for one, each with its shares. -/
theorem sum_length_le {ts : List SigType} {named : List TypeDescriptor}
    (h : List.Forall₂ a.WithinShares ts named) :
    (named.map fun t => t.full.length + 3).sum
      ≤ nodesOfTypes ts * a.share + overhangOfTypes ts := by
  induction h with
  | nil => exact Nat.zero_le _
  | cons hfirst _ ih =>
    rw [WithinShares] at hfirst
    rw [List.map_cons, List.sum_cons, nodesOfTypes, overhangOfTypes, Nat.add_mul]
    omega

/-- **A name is no longer than the shares of its types and its overhang.** The induction is on the
levels that may be opened. -/
theorem length_describeWithin {room : Nat} {type : SigType} {t : TypeDescriptor}
    (hmodest : type.Modest) (h : a.describeWithin room type = .ok t) : a.WithinShares type t := by
  induction room generalizing type t with
  | zero => cases h
  | succ room ih =>
    obtain ⟨htokens, hpositions⟩ := hmodest
    cases type with
    | element e =>
      obtain rfl := Except.ok.inj h
      exact withinShares_of_le (Nat.le_trans (length_describe e) (by omega))
    | pointer inner | byRef inner | vector inner =>
      obtain ⟨t', ht', rfl⟩ := exists_of_map_ok h
      have hinner : a.WithinShares inner t' := ih ⟨htokens, hpositions⟩ ht'
      exact hinner.around (k := 0) rfl rfl (String.length_append ..) (by decide)
    | pinned inner =>
      have hinner : a.WithinShares inner t := ih ⟨htokens, hpositions⟩ h
      exact hinner.around (k := 0) rfl rfl rfl (Nat.zero_le _)
    | valueType token | classType token =>
      obtain ⟨name, hname, rfl⟩ :=
        exists_of_describeToken (htokens token (List.mem_singleton_self _)) h
      exact withinShares_of_le (Nat.le_add_right_of_le (length_le_longestName hname))
    | typeVariable i | methodVariable i =>
      obtain rfl := Except.ok.inj h
      have hlength := length_genericParameter (hpositions i (List.mem_singleton_self _))
      exact withinShares_of_le (Nat.le_trans (hlength _) (by omega))
    | array inner rank =>
      obtain ⟨t', ht', rfl⟩ := exists_of_map_ok h
      have hinner : a.WithinShares inner t' := ih ⟨htokens, hpositions⟩ ht'
      exact hinner.around rfl rfl (String.length_append ..) (length_arraySuffix_le rank)
    | instantiation base arguments =>
      rw [SigType.tokens, List.forall_mem_append] at htokens
      obtain ⟨hbase, harguments⟩ := List.forall_mem_append.1 hpositions
      obtain ⟨t', ht', h⟩ := exists_of_bind_ok h
      obtain ⟨named, hnamed, h⟩ := exists_of_bind_ok h
      obtain rfl := Except.ok.inj h
      have hfront : a.WithinShares base t' := ih ⟨htokens.1, hbase⟩ ht'
      have hlist : List.Forall₂ a.WithinShares arguments named :=
        ((List.forall₂_and_left _ _).2 ⟨modest_of_mem htokens.2
          (positioned_iff_of_types.1 harguments), mapM_eq_ok_iff.1 hnamed⟩).imp
          fun _ _ hboth => ih hboth.1 hboth.2
      have hsum := sum_length_le hlist
      have hwhole := length_instantiate t' named
      have hshare : 32 ≤ a.share := Nat.le_add_left ..
      rw [WithinShares] at hfront ⊢
      rw [SigType.nodes, SigType.overhang, Nat.succ_mul, Nat.add_mul]
      omega
    | functionPointer m =>
      obtain rfl := Except.ok.inj h
      exact withinShares_of_le (Nat.le_add_left_of_le (by decide))

/-! ## 4. Names of the types of a method -/

/-- A reference has a character more; there is room for it, too. -/
theorem length_describeParameter {p : SigParam} {t : TypeDescriptor} (hmodest : p.type.Modest)
    (h : a.describeParameter p = .ok t) :
    t.full.length ≤ p.type.nodes * a.share + p.type.overhang := by
  obtain ⟨t', ht', rfl⟩ := exists_of_map_ok h
  have hwithin : t'.full.length + 3 ≤ _ := length_describeWithin hmodest ht'
  split
  · rw [TypeDescriptor.byRef, TypeDescriptor.withSuffix, String.length_append]
    show t'.full.length + 1 ≤ _
    omega
  · omega

theorem nodes_eq (p : SigParam) : p.nodes = p.type.nodes := by
  cases p
  rw [SigParam.nodes]

/-- A parameter has no more types than all parameters have. -/
theorem nodes_le_of_mem {ps : List SigParam} {p : SigParam} (h : p ∈ ps) :
    p.type.nodes ≤ nodesOfParams ps := by
  induction ps with
  | nil => exact absurd h List.not_mem_nil
  | cons first ps ih =>
    rw [nodesOfParams]
    rcases List.mem_cons.1 h with rfl | h
    · exact nodes_eq p ▸ Nat.le_add_right ..
    · exact Nat.le_add_left_of_le (ih h)

/-- And no more than its method has. -/
theorem nodes_le_method (m : SigMethod) :
    m.result.type.nodes ≤ m.nodes ∧ ∀ p ∈ m.arguments, p.type.nodes ≤ m.nodes := by
  have hnodes : m.nodes = m.result.nodes + nodesOfParams m.params + nodesOfParams m.varargs := by
    cases m
    rw [SigMethod.nodes]
  rw [hnodes, nodes_eq]
  refine ⟨by omega, fun p hp => ?_⟩
  rcases List.mem_append.1 hp with hp | hp
  all_goals
    have hle := nodes_le_of_mem hp
    omega

/-- A method signature has no more types than its blob has bytes. -/
theorem nodes_le_of_decodeMethod {blob : ByteArray} {m : SigMethod}
    (h : Signature.decodeMethod blob = .ok m) : m.nodes ≤ blob.size := by
  rcases hrun : Signature.method (Cursor.ofBlock blob) with ⟨outcome, c'⟩
  rw [Signature.decodeMethod, hrun] at h
  obtain rfl : outcome = .ok m := h
  obtain ⟨bytes, hbytes, _, hfits⟩ := (Signature.exact_within _).2 _ _ _ hrun
  have hlength : blob.size = bytes.length + c'.rest.length := by
    rw [← List.length_append, ← hbytes]
    rfl
  have hnodes := hfits.nodes_le
  omega

/-- **The names of the types of a method are no longer than its signature warrants.**

In the description of a method whose signature refers to no type specification, every full name has
at most a share for each byte of the signature and one more, and a character for every dimension of
an array beyond those that a share has room for. A share is the longest name of a type or reference
of the module and 32 characters. -/
theorem names_within_shares {index : Nat} {m : Method} {signature : SigMethod}
    {d : MethodDescriptor} (hm : a.methods[index]? = some m)
    (hread : Signature.decodeMethod m.signature = .ok signature)
    (htokens : ∀ k ∈ signature.tokens, k.table ≠ TableId.typeSpec.number)
    (hdescribed : a.methodDescriptor index = .ok d) :
    d.result.full.length
      ≤ (m.signature.size + 1) * (a.longestName + 32) + signature.result.type.overhang ∧
    List.Forall₂ (fun p t => t.full.length
      ≤ (m.signature.size + 1) * (a.longestName + 32) + p.type.overhang)
      signature.arguments d.parameters := by
  obtain ⟨m', _, signature', hm', _, hread', _, hresult, hparameters⟩ :=
    parts_of_methodDescriptor hdescribed
  obtain rfl := Option.some.inj (hm.symm.trans hm')
  obtain rfl := Except.ok.inj (hread.symm.trans hread')
  obtain ⟨hplain, hplains⟩ := SigMethod.plain (Nat.le_succ _) htokens
  obtain ⟨hpositions, hpositionsOf⟩ := Signature.positions_lt_of_decodeMethod hread
  obtain ⟨hnodes, hnodesOf⟩ := nodes_le_method signature
  have hsize := nodes_le_of_decodeMethod hread
  -- what a parameter is named with, for the bytes of the whole signature
  have hbound : ∀ {p : SigParam} {t : TypeDescriptor}, p.type.Modest →
      p.type.nodes ≤ signature.nodes → a.describeParameter p = .ok t →
      t.full.length ≤ (m.signature.size + 1) * (a.longestName + 32) + p.type.overhang := by
    intro p t hmodest hp ht
    have hle : p.type.nodes ≤ m.signature.size + 1 := by omega
    exact Nat.le_trans (length_describeParameter hmodest ht)
      (Nat.add_le_add_right (Nat.mul_le_mul_right _ hle) _)
  refine ⟨hbound ⟨hplain.tokens, hpositions⟩ hnodes hresult, ?_⟩
  refine ((List.forall₂_and_left _ _).2 ⟨fun p hp => hp, mapM_eq_ok_iff.1 hparameters⟩).imp ?_
  rintro p t ⟨hp, ht⟩
  exact hbound ⟨(hplains p hp).tokens, hpositionsOf p hp⟩ (hnodesOf p hp) ht

/-! ## 5. Arrays of numbers -/

/-- A method with a signature, listed by the first type of its module. -/
def gridMethod (s : SigMethod) : Method :=
  ⟨⟨0x06000001⟩, "Make", ⟨0⟩, 0, some 0, Bytes.ofList s.code, none, #[]⟩

/-- A module with this method. -/
def gridModule (s : SigMethod) : Assembly where
  identity := "App"
  types := #[⟨⟨0x02000001⟩, .topLevel "App" "Grids", 0, [0]⟩]
  methods := #[gridMethod s]
  references := #[]
  specifications := #[]

/-- A signature that is well-formed and not too deep is read from its plain form. -/
theorem decodeMethod_gridMethod {s : SigMethod} (hwf : s.isWellFormed = true)
    (hroom : s.nesting < Signature.nestingLimit) :
    Signature.decodeMethod (gridMethod s).signature = .ok s := by
  have hreads :=
    Signature.reads_methodCode (methodCode_code hwf) hwf _ (Nat.le_sub_one_of_lt hroom) [] 0 0
  rw [List.append_nil] at hreads
  exact congrArg Prod.fst hreads

/-- What the name of an array adds up to. -/
theorem length_grid {rank : Nat} (h : 2 ≤ rank) :
    ((TypeDescriptor.primitive "Int32").array (max rank 1)).full.length = rank + 13 := by
  obtain ⟨k, rfl⟩ := Nat.exists_eq_add_of_le' h
  have hrank : max (k + 2) 1 = k + 2 := Nat.max_eq_left (by omega)
  rw [TypeDescriptor.array, TypeDescriptor.withSuffix, String.length_append, hrank,
    length_arraySuffix]
  show 12 + (k + 3) = k + 2 + 13
  omega

/-- A method that gives an array of many dimensions for a reference to another array and an instance
of its own type. -/
def copySignature : SigMethod :=
  ⟨false, false, 0, 0, ⟨false, .array (.element .int32) 2000⟩,
    [⟨true, .array (.element .char) 33⟩, ⟨false, .classType ⟨0x02000001⟩⟩], []⟩

/-- Its name outgrows the shares of the signature, and stays below them and its overhang. So do the
names of the parameters, the first of which has an overhang as well. -/
theorem names_within_shares_grid :
    ∃ d, (gridModule copySignature).methods[0]? = some (gridMethod copySignature) ∧
      Signature.decodeMethod (gridMethod copySignature).signature = .ok copySignature ∧
      (∀ k ∈ copySignature.tokens, k.table ≠ TableId.typeSpec.number) ∧
      (gridModule copySignature).methodDescriptor 0 = .ok d ∧
      ((gridMethod copySignature).signature.size + 1)
        * ((gridModule copySignature).longestName + 32) = 697 ∧
      697 < d.result.full.length ∧ d.result.full.length ≤ 697 + 1969 ∧
      List.Forall₂ (fun p t => t.full.length ≤ 697 + p.type.overhang) copySignature.arguments
        d.parameters := by
  have hread : Signature.decodeMethod (gridMethod copySignature).signature = .ok copySignature :=
    decodeMethod_gridMethod (by decide) (by decide)
  have hdescribed : (gridModule copySignature).methodDescriptor 0
      = .ok ⟨.topLevel "App" "Grids", "Make",
        (TypeDescriptor.primitive "Int32").array (max 2000 1),
        [((TypeDescriptor.primitive "Char").array (max 33 1)).byRef,
          .named (.topLevel "App" "Grids") false], "App", ⟨0x06000001⟩⟩ := by
    show (Signature.decodeMethod (gridMethod copySignature).signature >>= _) = _
    rw [hread]
    rfl
  have hbound : ((gridMethod copySignature).signature.size + 1)
      * ((gridModule copySignature).longestName + 32) = 697 := by
    decide +kernel
  have htokens : ∀ k ∈ copySignature.tokens, k.table ≠ TableId.typeSpec.number := by decide
  obtain ⟨hresult, hparameters⟩ := names_within_shares rfl hread htokens hdescribed
  rw [hbound] at hresult
  simp only [hbound] at hparameters
  refine ⟨_, rfl, hread, htokens, hdescribed, hbound, ?_, hresult, hparameters⟩
  rw [length_grid (by decide)]
  decide

/-- A method without parameters that gives an array of numbers. -/
def gridSignature (rank : Nat) : SigMethod :=
  ⟨false, false, 0, 0, ⟨false, .array (.element .int32) rank⟩, [], []⟩

theorem decodeMethod_gridSignature {rank : Nat} (h : rank < compressedSpan) :
    Signature.decodeMethod (gridMethod (gridSignature rank)).signature
      = .ok (gridSignature rank) := by
  have hresult : (⟨false, .array (.element .int32) rank⟩ : SigParam).isWellFormed = true := by
    rw [SigParam.isWellFormed, SigType.isWellFormed, decide_eq_true h]
    rfl
  refine decodeMethod_gridMethod ?_ ?_
  · rw [gridSignature, SigMethod.isWellFormed, hresult]
    rfl
  · show 3 < 50
    decide

/-- The array has the name of its numbers and its mark. -/
theorem methodDescriptor_gridSignature {rank : Nat} (h : rank < compressedSpan) :
    (gridModule (gridSignature rank)).methodDescriptor 0 = .ok ⟨.topLevel "App" "Grids", "Make",
      (TypeDescriptor.primitive "Int32").array (max rank 1), [], "App", ⟨0x06000001⟩⟩ := by
  show (Signature.decodeMethod (gridMethod (gridSignature rank)).signature >>= _) = _
  rw [decodeMethod_gridSignature h]
  rfl

/-- **An array outgrows the shares of its signature.** In eight bytes there is an array of 16383
dimensions, and in ten one of 536870911; the module has no name of more than nine characters. -/
theorem wide_array_outgrows_shares :
    (∃ d, (gridModule (gridSignature 16383)).methods[0]?
        = some (gridMethod (gridSignature 16383)) ∧
      Signature.decodeMethod (gridMethod (gridSignature 16383)).signature
        = .ok (gridSignature 16383) ∧
      (gridSignature 16383).tokens = [] ∧
      (gridModule (gridSignature 16383)).methodDescriptor 0 = .ok d ∧
      ((gridMethod (gridSignature 16383)).signature.size + 1)
        * ((gridModule (gridSignature 16383)).longestName + 32) = 369 ∧
      d.result.full.length = 16396) ∧
    ∃ d, (gridModule (gridSignature 536870911)).methods[0]?
        = some (gridMethod (gridSignature 536870911)) ∧
      Signature.decodeMethod (gridMethod (gridSignature 536870911)).signature
        = .ok (gridSignature 536870911) ∧
      (gridSignature 536870911).tokens = [] ∧
      (gridModule (gridSignature 536870911)).methodDescriptor 0 = .ok d ∧
      ((gridMethod (gridSignature 536870911)).signature.size + 1)
        * ((gridModule (gridSignature 536870911)).longestName + 32) = 451 ∧
      d.result.full.length = 536870924 := by
  refine ⟨⟨_, rfl, decodeMethod_gridSignature (by decide), rfl,
      methodDescriptor_gridSignature (by decide), by decide +kernel, ?_⟩,
    ⟨_, rfl, decodeMethod_gridSignature (by decide), rfl,
      methodDescriptor_gridSignature (by decide), by decide +kernel, ?_⟩⟩
  · exact length_grid (by decide)
  · exact length_grid (by decide)

end Assembly

end InteropTables
