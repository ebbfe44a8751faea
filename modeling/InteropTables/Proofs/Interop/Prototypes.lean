import InteropTables.Proofs.Interop.ReadDeclarations

/-!
# Prototypes of one function

Prototypes are told apart by their texts. So a function with calls of different native types gets a
prototype for each of them, and the declarations conflict.

* `PrototypeForm`, `NativeCall.form`: a prototype without the name of its function;
* `NativeCall.prototype_eq_iff`: **a prototype is a name and a form**;
* `PrototypeForm.signature`: the native types of a form;
* `prototypes_of_function`: **a function has one prototype exactly when its calls have one form.**
-/

namespace InteropTables

/-! ## 1. Forms -/

/-- A prototype without the name of its function. -/
inductive PrototypeForm where
  /-- The form that does not follow from the types of the method. -/
  | enumCalendarInfo
  | typed (result : CType) (parameters : List CType)
deriving DecidableEq, Repr

namespace PrototypeForm

/-- The result type as it is written. -/
def resultText : PrototypeForm → String
  | enumCalendarInfo => "int"
  | typed result _ => result.spelling

/-- The parameters as they are written. -/
def parameterText : PrototypeForm → String
  | enumCalendarInfo => "int, int, int, int, int"
  | typed _ parameters => ",".intercalate (parameters.map CType.spelling)

/-- The native types of the result and of the parameters. -/
def signature : PrototypeForm → CType × List CType
  | enumCalendarInfo => (.int, List.replicate 5 .int)
  | typed result parameters => (result, parameters)

end PrototypeForm

/-- The form of the prototype of a call. -/
def NativeCall.form (call : NativeCall) : PrototypeForm :=
  if call.method.name = enumCalendarInfoName then .enumCalendarInfo
  else .typed (CType.ofType call.method.result) (call.method.parameters.map CType.ofType)

theorem NativeCall.prototype_eq (call : NativeCall) : call.prototype = call.form.resultText ++ " "
    ++ call.entryPoint ++ " (" ++ call.form.parameterText ++ ");" := by
  unfold NativeCall.prototype NativeCall.form
  split
  · have hfront : "int " = "int" ++ " " := rfl
    have hbehind : " (int, int, int, int, int);"
      = " (" ++ ("int, int, int, int, int" ++ ");") := rfl
    simp only [PrototypeForm.resultText, PrototypeForm.parameterText, String.append_assoc, hfront,
      hbehind]
  · simp only [PrototypeForm.resultText, PrototypeForm.parameterText, List.map_map]
    rfl

/-! ## 2. Texts -/

theorem splitOn_parameterText {cs : List CType} (hcs : cs ≠ []) :
    (",".intercalate (cs.map CType.spelling)).toList.splitOn ','
      = cs.map fun c => c.spelling.toList := by
  have hcomma (c : CType) : ',' ∉ c.spelling.toList := by
    cases c <;> decide
  have hlist : (",".intercalate (cs.map CType.spelling)).toList
      = [','].intercalate (cs.map fun c => c.spelling.toList) := by
    rw [String.toList_intercalate, List.map_map]
    rfl
  rw [hlist]
  refine List.splitOn_intercalate ',' (fun l hl => ?_) (List.map_eq_nil_iff.not.2 hcs)
  obtain ⟨c, -, rfl⟩ := List.mem_map.1 hl
  exact hcomma c

/-- Different lists of native types are written differently. -/
theorem intercalate_spelling_injective {cs ds : List CType}
    (h : ",".intercalate (cs.map CType.spelling) = ",".intercalate (ds.map CType.spelling)) :
    cs = ds := by
  have hspelling (c : CType) : c.spelling.toList ≠ [] := by
    cases c <;> decide
  have hempty {c : CType} {cs : List CType}
      (h : ",".intercalate ((c :: cs).map CType.spelling) = "") : False := by
    have hsplit := splitOn_parameterText (List.cons_ne_nil c cs)
    rw [h] at hsplit
    exact hspelling c (List.cons.inj hsplit).1.symm
  cases cs with
  | nil =>
    cases ds with
    | nil => rfl
    | cons d ds => exact (hempty h.symm).elim
  | cons c cs =>
    cases ds with
    | nil => exact (hempty h).elim
    | cons d ds =>
      have hsplit := splitOn_parameterText (List.cons_ne_nil c cs)
      rw [h, splitOn_parameterText (List.cons_ne_nil d ds)] at hsplit
      refine (List.map_inj_right fun a b hab => ?_).1 hsplit.symm
      exact CType.spelling_injective (String.toList_injective hab)

/-- The parameters of one form hold blanks, and those of the others do not. -/
theorem blank_not_mem_parameterText (result : CType) (parameters : List CType) :
    ' ' ∉ (PrototypeForm.typed result parameters).parameterText.toList := by
  refine not_mem_toList_intercalate (by decide) fun part hpart => ?_
  obtain ⟨c, -, rfl⟩ := List.mem_map.1 hpart
  exact (CType.spelling_chars c).1

theorem PrototypeForm.eq_of_text {f g : PrototypeForm} (hresult : f.resultText = g.resultText)
    (hparameters : f.parameterText = g.parameterText) : f = g := by
  have hblank : ' ' ∈ PrototypeForm.enumCalendarInfo.parameterText.toList := by decide
  match f, g with
  | .enumCalendarInfo, .enumCalendarInfo => rfl
  | .enumCalendarInfo, .typed result parameters =>
    rw [hparameters] at hblank
    exact absurd hblank (blank_not_mem_parameterText result parameters)
  | .typed result parameters, .enumCalendarInfo =>
    rw [← hparameters] at hblank
    exact absurd hblank (blank_not_mem_parameterText result parameters)
  | .typed result parameters, .typed result' parameters' =>
    obtain rfl := CType.spelling_injective hresult
    obtain rfl := intercalate_spelling_injective hparameters
    rfl

theorem PrototypeForm.blank_not_mem_resultText (f : PrototypeForm) :
    ' ' ∉ f.resultText.toList := by
  cases f with
  | enumCalendarInfo => decide
  | typed result parameters => exact (CType.spelling_chars result).1

/-- **A prototype is a name and a form.** -/
theorem NativeCall.prototype_eq_iff {a b : NativeCall} :
    a.prototype = b.prototype ↔ a.entryPoint = b.entryPoint ∧ a.form = b.form := by
  constructor
  · intro h
    have hname := NativeCall.entryPoint_eq_of_prototype h
    have hparts (call : NativeCall) : call.prototype.toList = call.form.resultText.toList ++ ' ' ::
        ((call.entryPoint ++ " (").toList ++ (call.form.parameterText.toList ++ ");".toList)) := by
      rw [call.prototype_eq]
      simp
    have htext := congrArg String.toList h
    rw [hparts, hparts, hname] at htext
    obtain ⟨hresult, hrest⟩ := append_cons_inj a.form.blank_not_mem_resultText
      b.form.blank_not_mem_resultText htext
    have hparameters := List.append_cancel_right (List.append_cancel_left hrest)
    exact ⟨hname, PrototypeForm.eq_of_text (String.toList_injective hresult)
      (String.toList_injective hparameters)⟩
  · rintro ⟨hname, hform⟩
    rw [a.prototype_eq, b.prototype_eq, hname, hform]

/-! ## 3. Functions -/

/-- A text is a prototype of a function with these native types. -/
def DeclaresAs (text entryPoint : String) (signature : CType × List CType) : Prop :=
  ∃ call : NativeCall, call.entryPoint = entryPoint ∧ call.form.signature = signature ∧
    call.prototype = text

/-- **A prototype declares one function with one list of native types**, those of its call. -/
theorem declaresAs_prototype_iff {call : NativeCall} {entryPoint : String}
    {signature : CType × List CType} : DeclaresAs call.prototype entryPoint signature ↔
      call.entryPoint = entryPoint ∧ call.form.signature = signature := by
  constructor
  · rintro ⟨other, rfl, rfl, hother⟩
    obtain ⟨hname, hform⟩ := NativeCall.prototype_eq_iff.1 hother
    exact ⟨hname.symm, congrArg _ hform.symm⟩
  · exact fun ⟨hname, hsignature⟩ => ⟨call, hname, hsignature, rfl⟩

/-- The calls of a function into given native modules. -/
def CallsOf (calls : List NativeCall) (modules : NativeModules) (entryPoint : String)
    (call : NativeCall) : Prop :=
  call ∈ calls ∧ call.nativeModule ∈ modules.names ∧ call.entryPoint = entryPoint

variable {calls : List NativeCall} {modules : NativeModules} {entryPoint text : String}

/-- The prototypes of a function are those of its calls. -/
theorem declares_iff_callsOf : text ∈ prototypes calls modules ∧ Declares text entryPoint ↔
    ∃ call, CallsOf calls modules entryPoint call ∧ call.prototype = text := by
  rw [mem_prototypes]
  constructor
  · rintro ⟨⟨call, hcall, hmodule, rfl⟩, hdeclares⟩
    exact ⟨call, ⟨hcall, hmodule, declares_prototype_iff.1 hdeclares⟩, rfl⟩
  · rintro ⟨call, ⟨hcall, hmodule, hname⟩, rfl⟩
    exact ⟨⟨call, hcall, hmodule, rfl⟩, declares_prototype_iff.2 hname⟩

/-- Every prototype is written once. -/
theorem nodup_prototypes (calls : List NativeCall) (modules : NativeModules) :
    (prototypes calls modules).Nodup :=
  nodup_eraseDups _

/-- A function has one prototype exactly when its calls have one form. -/
theorem one_prototype_iff :
    (∀ p ∈ prototypes calls modules, ∀ q ∈ prototypes calls modules,
      Declares p entryPoint → Declares q entryPoint → p = q) ↔
    ∀ a b, CallsOf calls modules entryPoint a → CallsOf calls modules entryPoint b →
      a.form = b.form := by
  constructor
  · intro h a b ha hb
    obtain ⟨hp, hpname⟩ := declares_iff_callsOf.2 ⟨a, ha, rfl⟩
    obtain ⟨hq, hqname⟩ := declares_iff_callsOf.2 ⟨b, hb, rfl⟩
    exact (NativeCall.prototype_eq_iff.1 (h _ hp _ hq hpname hqname)).2
  · intro h p hp q hq hpname hqname
    obtain ⟨a, ha, rfl⟩ := declares_iff_callsOf.1 ⟨hp, hpname⟩
    obtain ⟨b, hb, rfl⟩ := declares_iff_callsOf.1 ⟨hq, hqname⟩
    exact NativeCall.prototype_eq_iff.2 ⟨ha.2.2.trans hb.2.2.symm, h a b ha hb⟩

/-- The prototypes of a function agree on its native types exactly when its calls do. -/
theorem one_signature_iff :
    (∀ p ∈ prototypes calls modules, ∀ q ∈ prototypes calls modules, ∀ s s',
      DeclaresAs p entryPoint s → DeclaresAs q entryPoint s' → s = s') ↔
    ∀ a b, CallsOf calls modules entryPoint a → CallsOf calls modules entryPoint b →
      a.form.signature = b.form.signature := by
  constructor
  · intro h a b ha hb
    obtain ⟨hp, -⟩ := declares_iff_callsOf.2 ⟨a, ha, rfl⟩
    obtain ⟨hq, -⟩ := declares_iff_callsOf.2 ⟨b, hb, rfl⟩
    exact h _ hp _ hq _ _ (declaresAs_prototype_iff.2 ⟨ha.2.2, rfl⟩)
      (declaresAs_prototype_iff.2 ⟨hb.2.2, rfl⟩)
  · intro h p hp q hq s s' hs hs'
    obtain ⟨a, ha, hmodule, rfl⟩ := mem_prototypes.1 hp
    obtain ⟨b, hb, hmodule', rfl⟩ := mem_prototypes.1 hq
    obtain ⟨hname, rfl⟩ := declaresAs_prototype_iff.1 hs
    obtain ⟨hname', rfl⟩ := declaresAs_prototype_iff.1 hs'
    exact h a b ⟨ha, hmodule, hname⟩ ⟨hb, hmodule', hname'⟩

/-- **A function has one prototype exactly when its calls have one form.** The text holds the
prototypes of the calls into the given modules behind its header, each once. For every function, no
two of them declare it exactly when all its calls have one form; and those that declare it agree on
its native types exactly when all its calls do. -/
theorem prototypes_of_function (calls : List NativeCall) (modules : NativeModules) :
    declarationsText calls modules = unlines ([generatedHeader, ""] ++ prototypes calls modules ++
      modules.names.flatMap (fun m => (ImportTable.ofCalls calls m).lines) ++
      [tablesLine modules, namesLine modules]) ∧
    (prototypes calls modules).Nodup ∧
    (∀ text, text ∈ prototypes calls modules ↔
      ∃ call ∈ calls, call.nativeModule ∈ modules.names ∧ call.prototype = text) ∧
    ∀ entryPoint,
      ((∀ p ∈ prototypes calls modules, ∀ q ∈ prototypes calls modules,
        Declares p entryPoint → Declares q entryPoint → p = q) ↔
      ∀ a b, CallsOf calls modules entryPoint a → CallsOf calls modules entryPoint b →
        a.form = b.form) ∧
      ((∀ p ∈ prototypes calls modules, ∀ q ∈ prototypes calls modules, ∀ s s',
        DeclaresAs p entryPoint s → DeclaresAs q entryPoint s' → s = s') ↔
      ∀ a b, CallsOf calls modules entryPoint a → CallsOf calls modules entryPoint b →
        a.form.signature = b.form.signature) :=
  ⟨rfl, nodup_prototypes calls modules, fun _ => mem_prototypes,
    fun _ => ⟨one_prototype_iff, one_signature_iff⟩⟩

/-- A call of a function that takes nothing. -/
def NativeCall.returning (result : TypeDescriptor) (entryPoint nativeModule identity : String) :
    NativeCall :=
  let call := NativeCall.plain entryPoint nativeModule identity
  { call with method := { call.method with result } }

/-- Two assemblies import one function with different result types, and it gets two prototypes that
do not agree. -/
theorem two_prototypes :
    let calls := [NativeCall.returning (.primitive "Int32") "f" "libc" "First",
      NativeCall.returning (.primitive "Double") "f" "libc" "Second"]
    "int f ();" ∈ prototypes calls (.ofList ["libc"]) ∧
    "double f ();" ∈ prototypes calls (.ofList ["libc"]) ∧
    DeclaresAs "int f ();" "f" (.int, []) ∧ DeclaresAs "double f ();" "f" (.double, []) := by
  refine ⟨?_, ?_, ?_, ?_⟩
  · exact mem_prototypes.2 ⟨_, List.mem_cons_self, by decide, by decide⟩
  · exact mem_prototypes.2 ⟨_, List.mem_cons_of_mem _ List.mem_cons_self, by decide, by decide⟩
  · exact ⟨NativeCall.returning (.primitive "Int32") "f" "libc" "First", rfl, by decide, by decide⟩
  · exact ⟨NativeCall.returning (.primitive "Double") "f" "libc" "Second", rfl, by decide,
      by decide⟩

end InteropTables
