import InteropTables.Metadata.TableId
import InteropTables.Proofs.Assembly.Described
import InteropTables.Proofs.Signature.Levels

/-!
# Room for the names of a signature

Reading a signature and naming its types have a limit each, and count levels in their own way.
Whatever can be read is nested less deep than the limit of reading, and so there is room for all its
names. Only the blob of a type specification, which is read by itself, can take more levels of
naming; a signature that refers to none is always named within the limit.

* `SigType.tokens`: all tokens in a type;
* `nesting_lt_of_decodeType`, `nesting_lt_of_decodeMethod`: **what is read is nested less deep than
  the limit**;
* `spares_describeWithin`: with room for its nesting, a type is named without reaching the limit;
* `methodDescriptor_limit_iff`: where a method reaches a limit, it is that of reading its signature;
* `limits_compatible`: **both limits together.**
-/

namespace InteropTables

/-! ## 1. Tokens -/

mutual

/-- The tokens in a type. -/
def SigType.tokens : SigType → List Token
  | .element _ => []
  | .pointer t => t.tokens
  | .byRef t => t.tokens
  | .pinned t => t.tokens
  | .valueType token => [token]
  | .classType token => [token]
  | .typeVariable _ => []
  | .methodVariable _ => []
  | .array t _ => t.tokens
  | .vector t => t.tokens
  | .instantiation t ts => t.tokens ++ tokensOfTypes ts
  | .functionPointer m => m.tokens

/-- The tokens in the type of a parameter. -/
def SigParam.tokens : SigParam → List Token
  | ⟨_, t⟩ => t.tokens

/-- The tokens in a method signature. -/
def SigMethod.tokens : SigMethod → List Token
  | ⟨_, _, _, _, r, ps, vs⟩ => r.tokens ++ (tokensOfParams ps ++ tokensOfParams vs)

def tokensOfTypes : List SigType → List Token
  | [] => []
  | t :: ts => t.tokens ++ tokensOfTypes ts

def tokensOfParams : List SigParam → List Token
  | [] => []
  | p :: ps => p.tokens ++ tokensOfParams ps

end

/-- The tokens of parameters are those of their types. -/
theorem tokensOfParams_eq (ps : List SigParam) :
    tokensOfParams ps = tokensOfTypes (ps.map (·.type)) := by
  induction ps with
  | nil => rfl
  | cons p ps ih =>
    cases p
    rw [tokensOfParams, List.map_cons, tokensOfTypes, ih, SigParam.tokens]

/-- Parameters are nested as deep as their types. -/
theorem nestingOfParams_eq (ps : List SigParam) :
    nestingOfParams ps = nestingOfTypes (ps.map (·.type)) := by
  induction ps with
  | nil => rfl
  | cons p ps ih =>
    cases p
    rw [nestingOfParams, List.map_cons, nestingOfTypes, ih, SigParam.nesting]

/-- What is asked of a type that is named with some room: the room holds its nesting, and none of
its tokens refers to a type specification. -/
structure SigType.Plain (room : Nat) (t : SigType) : Prop where
  nesting_le : t.nesting ≤ room
  tokens : ∀ k ∈ t.tokens, k.table ≠ TableId.typeSpec.number

/-- Each type of a list is asked for what is asked of the list. -/
theorem plain_of_mem {room : Nat} {ts : List SigType} (hnesting : nestingOfTypes ts ≤ room)
    (htokens : ∀ k ∈ tokensOfTypes ts, k.table ≠ TableId.typeSpec.number) :
    ∀ t ∈ ts, t.Plain room := by
  induction ts with
  | nil => exact fun _ h => absurd h List.not_mem_nil
  | cons first ts ih =>
    rw [nestingOfTypes] at hnesting
    rw [tokensOfTypes] at htokens
    refine List.forall_mem_cons.2 ⟨⟨by omega, fun k hk => htokens k ?_⟩,
      ih (by omega) fun k hk => htokens k ?_⟩
    · exact List.mem_append_left _ hk
    · exact List.mem_append_right _ hk

/-- The types of a method signature have a level less than the signature. -/
theorem SigMethod.plain {room : Nat} {m : SigMethod} (hnesting : m.nesting ≤ room + 1)
    (htokens : ∀ k ∈ m.tokens, k.table ≠ TableId.typeSpec.number) :
    m.result.type.Plain room ∧ ∀ p ∈ m.arguments, p.type.Plain room := by
  obtain ⟨_, _, _, _, ⟨_, result⟩, params, varargs⟩ := m
  rw [SigMethod.nesting, SigParam.nesting, nestingOfParams_eq, nestingOfParams_eq] at hnesting
  rw [SigMethod.tokens, SigParam.tokens, tokensOfParams_eq, tokensOfParams_eq] at htokens
  obtain ⟨hresult, hlists⟩ := List.forall_mem_append.1 htokens
  obtain ⟨hparams, hvarargs⟩ := List.forall_mem_append.1 hlists
  have hle : result.nesting ≤ room := by omega
  refine ⟨⟨hle, hresult⟩, fun p hp => ?_⟩
  rcases List.mem_append.1 hp with hp | hp
  · exact plain_of_mem (by omega) hparams _ (List.mem_map_of_mem hp)
  · exact plain_of_mem (by omega) hvarargs _ (List.mem_map_of_mem hp)

/-! ## 2. What is read -/

namespace Signature

theorem nesting_lt_of_decodeType {blob : ByteArray} {t : SigType} (h : decodeType blob = .ok t) :
    t.nesting < nestingLimit := by
  rcases hrun : type (Cursor.ofBlock blob) with ⟨outcome, c'⟩
  rw [decodeType, hrun] at h
  obtain rfl : outcome = .ok t := h
  obtain ⟨_, _, _, hfits⟩ := (exact_within _).1 _ _ _ hrun
  exact Nat.lt_succ_of_le hfits.nesting_le

theorem nesting_lt_of_decodeMethod {blob : ByteArray} {m : SigMethod}
    (h : decodeMethod blob = .ok m) : m.nesting < nestingLimit := by
  rcases hrun : method (Cursor.ofBlock blob) with ⟨outcome, c'⟩
  rw [decodeMethod, hrun] at h
  obtain rfl : outcome = .ok m := h
  obtain ⟨_, _, _, hfits⟩ := (exact_within _).2 _ _ _ hrun
  exact Nat.lt_succ_of_le hfits.nesting_le

/-- The only limit that reading reports is its own. -/
theorem eq_of_decodeMethod_limit {blob : ByteArray} {n : Nat}
    (h : decodeMethod blob = .error (.nestingLimit n)) : n = nestingLimit := by
  rcases hrun : method (Cursor.ofBlock blob) with ⟨outcome, c'⟩
  rw [decodeMethod, hrun] at h
  obtain rfl : outcome = .error (.nestingLimit n) := h
  obtain ⟨_, _, hleaves⟩ := (levels_within _).2.1 _ _ _ hrun
  cases hleaves with
  | limit _ => rfl
  | error other _ _ => exact absurd ⟨n, rfl⟩ other

end Signature

/-! ## 3. What is named -/

namespace Assembly

variable {a : Assembly} {room : Nat}

/-- A token that does not refer to a specification has a name in a table, or none. -/
theorem spares_describeToken {inner : SigType → Except Fault TypeDescriptor} {token : Token}
    (h : token.table ≠ TableId.typeSpec.number) (isValueType : Bool) :
    Spares Fault.IsLimit (a.describeToken inner token isValueType) := by
  unfold describeToken
  dsimp only
  split
  · split
    · exact spares_ok _
    · exact spares_error_iff.2 (Fault.not_isLimit_malformed _)
  · split
    · exact spares_ok _
    · exact spares_error_iff.2 (Fault.not_isLimit_malformed _)
  · exact absurd ‹_› h
  · exact spares_error_iff.2 (Fault.not_isLimit_malformed _)

/-- **With room for its nesting, a plain type is named without reaching the limit.** The induction
is on the room; a level of naming is one of the type. -/
theorem spares_describeWithin {t : SigType} (h : t.Plain room) :
    Spares Fault.IsLimit (a.describeWithin room t) := by
  induction room generalizing t with
  | zero =>
    have hpos := Signature.nesting_pos t
    exact absurd h.nesting_le (by omega)
  | succ room ih =>
    obtain ⟨hnesting, htokens⟩ := h
    cases t with
    | element e => exact spares_ok _
    | pointer t => exact spares_map_iff.2 (ih ⟨Nat.le_of_succ_le_succ hnesting, htokens⟩)
    | byRef t => exact spares_map_iff.2 (ih ⟨Nat.le_of_succ_le_succ hnesting, htokens⟩)
    | pinned t => exact ih ⟨Nat.le_of_succ_le_succ hnesting, htokens⟩
    | valueType token | classType token =>
      exact spares_describeToken (htokens token (List.mem_singleton_self _)) _
    | typeVariable i => exact spares_ok _
    | methodVariable i => exact spares_ok _
    | array t rank => exact spares_map_iff.2 (ih ⟨Nat.le_of_succ_le_succ hnesting, htokens⟩)
    | vector t => exact spares_map_iff.2 (ih ⟨Nat.le_of_succ_le_succ hnesting, htokens⟩)
    | instantiation base arguments =>
      rw [SigType.nesting] at hnesting
      rw [SigType.tokens] at htokens
      have harguments : ∀ t ∈ arguments, t.Plain room :=
        plain_of_mem (by omega) fun k hk => htokens k (List.mem_append_right _ hk)
      have hbase : base.Plain room :=
        ⟨by omega, fun k hk => htokens k (List.mem_append_left _ hk)⟩
      refine spares_bind_iff.2 ⟨ih hbase, fun _ _ => spares_bind_iff.2 ⟨?_, fun _ _ => spares_ok _⟩⟩
      exact spares_mapM fun t ht => ih (harguments t ht)
    | functionPointer m => exact spares_ok _

/-- The limit of naming leaves room for all that the limit of reading lets pass. -/
theorem spares_describeParameter {p : SigParam} (h : p.type.Plain Signature.nestingLimit) :
    Spares Fault.IsLimit (a.describeParameter p) := by
  have hroom : Signature.nestingLimit ≤ namingLimit := by decide
  exact spares_map_iff.2 (spares_describeWithin ⟨Nat.le_trans h.nesting_le hroom, h.tokens⟩)

/-- So all types of a signature without specifications are named without reaching the limit. -/
theorem spares_describeSignature {signature : SigMethod} {β : Type}
    (hnesting : signature.nesting < Signature.nestingLimit)
    (htokens : ∀ k ∈ signature.tokens, k.table ≠ TableId.typeSpec.number)
    (f : TypeDescriptor → List TypeDescriptor → β) :
    Spares Fault.IsLimit (do
      let result ← a.describeParameter signature.result
      let parameters ← signature.arguments.mapM a.describeParameter
      return f result parameters) := by
  obtain ⟨hresult, harguments⟩ := SigMethod.plain
    (Nat.le_succ_of_le (Nat.le_of_lt hnesting)) htokens
  refine spares_bind_iff.2 ⟨spares_describeParameter hresult, fun result _ =>
    spares_bind_iff.2 ⟨?_, fun parameters _ => spares_ok (f result parameters)⟩⟩
  exact spares_mapM fun p hp => spares_describeParameter (harguments p hp)

/-- Where the description of a method without specifications reports a limit, the method is listed
by a type, and its signature has reached the limit of reading. -/
theorem methodDescriptor_limit_iff {index : Nat}
    (hplain : ∀ m signature, a.methods[index]? = some m →
      Signature.decodeMethod m.signature = .ok signature →
      ∀ k ∈ signature.tokens, k.table ≠ TableId.typeSpec.number) (n : Nat) :
    a.methodDescriptor index = .error (.nestingLimit n) ↔
      n = Signature.nestingLimit ∧ ∃ m, a.methods[index]? = some m ∧ (a.declaringType? m).isSome ∧
        Signature.decodeMethod m.signature = .error (.nestingLimit Signature.nestingLimit) := by
  unfold methodDescriptor
  constructor
  · intro h
    split at h
    · cases h
    split at h
    · cases h
    rename_i m hm _ declaring hdeclaring
    cases hsignature : Signature.decodeMethod m.signature with
    | error e =>
      rw [hsignature, bind_error] at h
      obtain rfl := Except.error.inj h
      obtain rfl := Signature.eq_of_decodeMethod_limit hsignature
      exact ⟨rfl, m, hm, by rw [hdeclaring]; rfl, hsignature⟩
    | ok signature =>
      -- naming the types of a signature that was read does not reach the limit
      rw [hsignature, bind_ok] at h
      have hspares := spares_describeSignature (a := a)
        (Signature.nesting_lt_of_decodeMethod hsignature) (hplain m signature hm hsignature)
        fun result parameters =>
          MethodDescriptor.mk declaring.name m.name result parameters a.identity m.token
      exact absurd ⟨n, rfl⟩ (hspares.not_bad _ h)
  · rintro ⟨rfl, m, hm, hdeclaring, hsignature⟩
    obtain ⟨declaring, hdeclaring⟩ := Option.isSome_iff_exists.1 hdeclaring
    simp only [hm, hdeclaring, hsignature, bind_error]

/-- **The limits of reading and of naming are compatible.**

What is read is nested less deep than the limit of reading. So a method whose signature, if it can
be read, refers to no type specification never reaches the limit of naming: where its description
reports a limit, it is the one that reading its signature has reported. -/
theorem limits_compatible :
    (∀ blob t, Signature.decodeType blob = .ok t → t.nesting < Signature.nestingLimit) ∧
    (∀ blob m, Signature.decodeMethod blob = .ok m → m.nesting < Signature.nestingLimit) ∧
    ∀ (a : Assembly) index,
      (∀ m signature, a.methods[index]? = some m →
        Signature.decodeMethod m.signature = .ok signature →
        ∀ k ∈ signature.tokens, k.table ≠ TableId.typeSpec.number) →
      ∀ n, a.methodDescriptor index = .error (.nestingLimit n) ↔
        n = Signature.nestingLimit ∧ ∃ m, a.methods[index]? = some m ∧ (a.declaringType? m).isSome ∧
          Signature.decodeMethod m.signature = .error (.nestingLimit Signature.nestingLimit) :=
  ⟨fun _ _ => Signature.nesting_lt_of_decodeType, fun _ _ => Signature.nesting_lt_of_decodeMethod,
    fun _ _ => methodDescriptor_limit_iff⟩

/-- The blob of a method that returns the void type behind some pointers. -/
def pointerBlob (n : Nat) : ByteArray :=
  Bytes.ofList ([0x00, 0x00] ++ List.replicate n 0x0F ++ [0x01])

/-- A module with this method. -/
def pointerModule (n : Nat) : Assembly where
  identity := "App"
  types := #[⟨⟨0x02000001⟩, .topLevel "App" "Pointers", 0, [0]⟩]
  methods := #[⟨⟨0x06000001⟩, "Follow", ⟨0⟩, 0, some 0, pointerBlob n, none, #[]⟩]
  references := #[]
  specifications := #[]

/-- Behind 47 pointers the type can be read, and so it is named; behind 48 it cannot be read. -/
theorem limits_compatible_pointers :
    (∃ m, Signature.decodeMethod (pointerBlob 47) = .ok m ∧ m.nesting < Signature.nestingLimit) ∧
    (∀ n, (pointerModule 47).methodDescriptor 0 ≠ .error (.nestingLimit n)) ∧
    (pointerModule 48).methodDescriptor 0 = .error (.nestingLimit Signature.nestingLimit) := by
  obtain ⟨m, hread, htokens⟩ := exists_of_any (x := Signature.decodeMethod (pointerBlob 47))
    (p := fun m => m.tokens.isEmpty) (by decide +kernel)
  have hrefused : Signature.decodeMethod (pointerBlob 48)
      = .error (.nestingLimit Signature.nestingLimit) := by
    have hfails : (Signature.decodeMethod (pointerBlob 48)).map (fun _ => ())
        = .error (.nestingLimit Signature.nestingLimit) := by decide +kernel
    cases h : Signature.decodeMethod (pointerBlob 48) with
    | error e =>
      rw [h] at hfails
      exact congrArg _ (Except.error.inj hfails)
    | ok m =>
      rw [h] at hfails
      cases hfails
  obtain ⟨-, hmethod, hlimits⟩ := limits_compatible
  refine ⟨⟨m, hread, hmethod _ _ hread⟩, fun n h => ?_, ?_⟩
  · have hplain : ∀ k signature, (pointerModule 47).methods[0]? = some k →
        Signature.decodeMethod k.signature = .ok signature →
        ∀ t ∈ signature.tokens, t.table ≠ TableId.typeSpec.number := by
      intro k signature hk hsignature t ht
      obtain rfl := Option.some.inj hk
      obtain rfl := Except.ok.inj (hread.symm.trans hsignature)
      rw [List.isEmpty_iff.1 htokens] at ht
      exact absurd ht List.not_mem_nil
    obtain ⟨-, k, hk, -, herror⟩ := (hlimits (pointerModule 47) 0 hplain n).1 h
    obtain rfl := Option.some.inj hk
    cases hread.symm.trans herror
  · refine (hlimits (pointerModule 48) 0 ?_ _).2 ⟨rfl, _, rfl, rfl, hrefused⟩
    intro k signature hk hsignature
    obtain rfl := Option.some.inj hk
    cases hrefused.symm.trans hsignature

end Assembly

end InteropTables
