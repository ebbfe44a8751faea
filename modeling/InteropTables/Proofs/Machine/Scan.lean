import InteropTables.Interop.Findings
import InteropTables.Proofs.Machine.Load

/-!
# Whole runs on a machine of words

A module is loaded and scanned, and any of its methods is described. The scan looks up every method
that a type lists, which exists as the loading has seen to it.

* `scan`: the methods of all types, one behind the other;
* `scan_follows`: **a loaded module is scanned as the library scans it**;
* `never_stopped`: **no run is ever stopped**, whatever bytes it is given.
-/

namespace InteropTables

namespace Machine

/-! ## 1. The scan -/

/-- The call of a native method; none for another. -/
def nativeCalls (m : Method) (descriptor : MethodDescriptor) : Run (List NativeCall) :=
  if m.isNative then do return [← Run.of (NativeCall.ofImport m.imported descriptor)]
  else return []

/-- What a visit to the method with an index finds. -/
def inspect (a : Assembly) (index : Nat) : Run Findings := do
  let m ← entry a.methods index
  if !m.isNative && m.marker?.isNone then return {}
  else do
    let descriptor ← methodDescriptor a index
    let calls ← nativeCalls m descriptor
    let callbacks := m.marker?.toList.map fun marker => { method := descriptor, marker }
    return ⟨calls, callbacks⟩

/-- What the visits to all methods of all types find. -/
def scan (a : Assembly) : Run Findings := do
  let found ← a.visibleTypes.mapM fun type => type.methods.mapM (inspect a)
  return .concat found.flatten

section Scan

variable {a : Assembly}

theorem inspect_follows (ha : ShortBlobs a) (type : TypeInfo) {index : Nat} {m : Method}
    (hm : a.methods[index]? = some m) :
    Follows Eq (inspect a index) (a.inspect ⟨type, index, m⟩) := by
  rw [inspect, entry_of_some hm, Run.pure_then, Assembly.inspect]
  refine .ite (fun _ => ?_) fun _ => ?_
  · exact follows_pure rfl
  · refine (methodDescriptor_follows ha index).bind_eq fun descriptor _ => ?_
    rw [nativeCalls]
    dsimp only
    split
    · cases NativeCall.ofImport m.imported descriptor with
      | ok call => exact follows_pure rfl
      | error e => exact follows_fail e
    · exact follows_pure rfl

/-- The methods of one type are visited in their order, as each of them exists. -/
theorem methods_follow (ha : ShortBlobs a) (type : TypeInfo) (indexes : List Nat)
    (hindexes : ∀ i ∈ indexes, i < a.methods.size) :
    Follows Eq (indexes.mapM (inspect a))
      ((indexes.filterMap fun index => a.methods[index]?.map fun m => ⟨type, index, m⟩).mapM
        a.inspect) := by
  induction indexes with
  | nil => exact follows_pure rfl
  | cons i indexes ih =>
    obtain ⟨hi, hindexes⟩ := List.forall_mem_cons.1 hindexes
    have hm : a.methods[i]? = some a.methods[i] := Array.getElem?_eq_getElem hi
    rw [List.filterMap_cons, hm]
    dsimp only [Option.map_some]
    rw [List.mapM_cons, List.mapM_cons]
    refine (inspect_follows ha type hm).bind_eq fun found _ => ?_
    exact (ih hindexes).bind_eq fun more _ => follows_pure rfl

/-- A step over lists one behind the other is a step over each of them. -/
theorem mapM_flatMap {α β γ : Type} {μ : Type → Type} [Monad μ] [LawfulMonad μ] (f : α → List β)
    (g : β → μ γ) (l : List α) :
    (l.flatMap f).mapM g = do return (← l.mapM fun x => (f x).mapM g).flatten := by
  induction l with
  | nil => simp
  | cons x l ih => simp [List.mapM_append, ih]

/-- **A loaded module is scanned as the library scans it.** -/
theorem scan_follows (ha : Loaded a) : Follows Eq (scan a) a.scan := by
  rw [scan, Assembly.scan, Assembly.visits, mapM_flatMap, bind_assoc]
  refine (Follows.mapM fun type htype => ?_).bind_eq fun found _ => follows_pure rfl
  have hmem : type ∈ a.types := Array.mem_toList_iff.1 (List.mem_filter.1 htype).1
  exact methods_follow ha.toShortBlobs type type.methods (ha.listed type hmem)

end Scan

/-! ## 2. Whole runs -/

/-- **No run is ever stopped**: whatever the bytes and however their headers are read, as long as
the numbers in the headers fit their words, a module is loaded with the outcome of the library; and
once it is loaded, scanning it and describing its methods have the outcomes of the library, too. -/
theorem never_stopped (parse : ByteArray → Except Fault Image)
    (hparse : ∀ data image, parse data = .ok image → image.Narrow) (data : ByteArray) :
    load parse data = .of (outcome parse data) ∧
    ∀ a events, outcome parse data = .ok (a, events) →
      scan a = .of a.scan ∧ ∀ index, methodDescriptor a index = .of (a.methodDescriptor index) := by
  have hload := load_follows hparse data
  refine ⟨(hload.mono fun _ _ h => h.1).eq, fun a events hloaded => ?_⟩
  rw [hloaded] at hload
  obtain ⟨_, _, _, ha⟩ := hload
  exact ⟨(scan_follows ha).eq, fun index => (methodDescriptor_follows ha.toShortBlobs index).eq⟩

/-- A small file: a module with one type that has one native method. -/
def smallFile : ByteArray := Bytes.ofList <|
  -- The first header leads to the signature, which the file header follows.
  [0x4D, 0x5A] ++
  List.replicate 58 0 ++
  [0x40, 0, 0, 0, 0x50, 0x45, 0, 0, 0x4C, 1, 1] ++
  List.replicate 13 0 ++
  [0xD8, 0, 2, 0x21] ++
  -- The optional header has fifteen directories; the last one leads to the runtime header.
  [0x0B, 1] ++
  List.replicate 31 0 ++
  [0x10, 0, 0, 0, 2] ++
  List.replicate 54 0 ++
  [0x0F] ++
  List.replicate 116 0 ++
  [0x10, 0, 0, 0x48, 0, 0, 0] ++
  -- The section table has one entry.
  [0x2E, 0x74, 0x65, 0x78, 0x74, 0, 0, 0, 0x14, 1, 0, 0, 0, 0x10, 0, 0, 0x14, 1, 0, 0, 0x58,
    1] ++
  List.replicate 14 0 ++
  [0x20, 0, 0, 0x60] ++
  -- The runtime header leads to the metadata.
  [0x48, 0, 0, 0, 2, 0, 5, 0, 0x48, 0x10, 0, 0, 0xCC, 0, 0, 0, 1] ++
  List.replicate 55 0 ++
  -- The root lists three streams.
  [0x42, 0x53, 0x4A, 0x42, 1, 0, 1, 0, 0, 0, 0, 0, 4, 0, 0, 0, 0x76, 0x34, 0, 0, 0, 0, 3, 0,
    0x48, 0, 0, 0, 0x6C, 0, 0, 0, 0x23, 0x7E, 0, 0, 0xB4, 0, 0, 0, 0x10, 0, 0, 0, 0x23, 0x53,
    0x74, 0x72, 0x69, 0x6E, 0x67, 0x73, 0, 0, 0, 0, 0xC4, 0, 0, 0, 8, 0, 0, 0, 0x23, 0x42, 0x6C,
    0x6F, 0x62, 0, 0, 0] ++
  -- The tables: their header, five row counts, and the rows.
  [0, 0, 0, 0, 2, 0, 0, 1, 0x45, 0, 0, 0x14] ++
  List.replicate 12 0 ++
  [1, 0, 0, 0, 2, 0, 0, 0, 1, 0, 0, 0, 1, 0, 0, 0, 1, 0, 0, 0, 0, 0, 0x0A] ++
  List.replicate 11 0 ++
  [1, 0, 0, 0, 0, 0, 1, 0, 1, 0, 1, 0, 0, 0, 0x0A, 0, 0, 0, 0, 0, 1, 0, 1, 0, 0, 0, 0, 0,
    0x80, 0, 0x16, 0x20, 0x0C, 0, 1, 0, 1, 0, 0x0E, 0, 0, 1, 3, 0, 0x0C, 0, 1, 0, 0, 0] ++
  -- The texts and the byte strings.
  [0, 0x3C, 0x4D, 0x6F, 0x64, 0x75, 0x6C, 0x65, 0x3E, 0, 0x54, 0, 0x46, 0, 0x63, 0, 0, 3, 0,
    0, 1, 0, 0, 0]

theorem never_stopped_smallFile :
    (∀ data image, Image.ofBytes data = .ok image → image.Narrow) ∧
    load Image.ofBytes smallFile = .of (Assembly.load smallFile) ∧
    ∃ a events, Assembly.load smallFile = .ok (a, events) ∧ scan a = .of a.scan ∧
      ∀ index, methodDescriptor a index = .of (a.methodDescriptor index) := by
  have hnarrow : ∀ data image, Image.ofBytes data = .ok image → image.Narrow :=
    fun _ _ h => Image.narrow_ofBytes h
  have hloads : (Assembly.load smallFile).isOk = true := by decide +kernel
  obtain ⟨hload, hmore⟩ := never_stopped Image.ofBytes hnarrow smallFile
  rw [outcome_ofBytes] at hload hmore
  refine ⟨hnarrow, hload, ?_⟩
  cases hloaded : Assembly.load smallFile with
  | error e =>
    rw [hloaded] at hloads
    cases hloads
  | ok loaded =>
    obtain ⟨a, events⟩ := loaded
    exact ⟨a, events, rfl, hmore a events hloaded⟩

end Machine

end InteropTables
