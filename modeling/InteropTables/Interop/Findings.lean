import InteropTables.Assembly.Describe
import InteropTables.Event

/-!
# Finding what crosses the native boundary

A method is a native call if its flags say so; its import names the function. Independently of
that, it is a callback if one of its attributes is a marker. Both need the names of the types in the
signature; all other methods are passed over without a look at theirs.

* `CallbackMarker.ofAttribute?`: which attributes are markers;
* `NativeCall`, `Callback`, `Findings`: what a scan finds;
* `Visit`, `Assembly.visits`: the methods in the order in which they are visited;
* `Assembly.inspect`: what one visit finds;
* `Assembly.scan`: what all visits find, up to the first that fails;
* `Assembly.scanEvents`: the report of the scan.
-/

namespace InteropTables

/-! ## 1. Markers -/

/-- The kinds of marker. -/
inductive CallbackMarker where
  | unmanagedCallersOnly
  | monoPInvokeCallback
deriving DecidableEq, Repr, Inhabited

namespace CallbackMarker

/-- The full name of the first marker. -/
def unmanagedCallersOnlyName : String :=
  "System.Runtime.InteropServices.UnmanagedCallersOnlyAttribute"

/-- The simple name of the second marker, which may stand in any namespace. -/
def monoPInvokeCallbackName : String :=
  "MonoPInvokeCallbackAttribute"

/-- The name of a marker. -/
def name : CallbackMarker → String
  | unmanagedCallersOnly => "UnmanagedCallersOnly"
  | monoPInvokeCallback => "MonoPInvokeCallback"

/-- The marker that an attribute is. -/
def ofAttribute? : Attribute → Option CallbackMarker
  | .resolved space name =>
    if joinName space name = unmanagedCallersOnlyName then some .unmanagedCallersOnly
    else if name = monoPInvokeCallbackName then some .monoPInvokeCallback
    else none
  | .unresolved _ => none

end CallbackMarker

/-- The first marker among the attributes of a method. -/
def Method.marker? (m : Method) : Option CallbackMarker :=
  m.attributes.toList.findSome? CallbackMarker.ofAttribute?

/-! ## 2. Findings -/

/-- A call of a native function. -/
structure NativeCall where
  entryPoint : String
  nativeModule : String
  method : MethodDescriptor
deriving DecidableEq, Repr, Inhabited

/-- A method that native code may call. -/
structure Callback where
  method : MethodDescriptor
  marker : CallbackMarker
  /-- The name of the native function in front of it, once there is one. -/
  trampoline : Option String := none
deriving DecidableEq, Repr, Inhabited

/-- What a scan finds. -/
structure Findings where
  calls : List NativeCall := []
  callbacks : List Callback := []
deriving DecidableEq, Repr, Inhabited

namespace Findings

/-- Nothing was found. -/
def isEmpty (f : Findings) : Bool :=
  f.calls.isEmpty && f.callbacks.isEmpty

/-- What several scans find, in their order. -/
def concat (fs : List Findings) : Findings :=
  ⟨fs.flatMap (·.calls), fs.flatMap (·.callbacks)⟩

end Findings

/-- The call of a native method, whose import must name a function. -/
def NativeCall.ofImport (imported : Option NativeImport) (method : MethodDescriptor) :
    Except Fault NativeCall :=
  match imported with
  | some i =>
    if i.entryPoint.isEmpty then .error (.missingEntryPoint method.display)
    else .ok ⟨i.entryPoint, i.module, method⟩
  | none => .error (.missingEntryPoint method.display)

/-! ## 3. The scan of a module -/

/-- A method with the type under which it is visited. -/
structure Visit where
  type : TypeInfo
  index : Nat
  method : Method

namespace Assembly

/-- All visits: the types in their order, for each of them its methods in their order. -/
def visits (a : Assembly) : List Visit :=
  a.visibleTypes.flatMap fun type =>
    type.methods.filterMap fun index => a.methods[index]?.map fun method => ⟨type, index, method⟩

/-- What a visit finds. -/
def inspect (a : Assembly) (v : Visit) : Except Fault Findings :=
  if !v.method.isNative && v.method.marker?.isNone then .ok {}
  else do
    let descriptor ← a.methodDescriptor v.index
    let calls ←
      if v.method.isNative then
        (NativeCall.ofImport v.method.imported descriptor).map fun call => [call]
      else .ok []
    let callbacks := v.method.marker?.toList.map fun marker => { method := descriptor, marker }
    return ⟨calls, callbacks⟩

/-- What all visits find; the first visit that fails ends the scan. -/
def scan (a : Assembly) : Except Fault Findings := do
  return .concat (← a.visits.mapM a.inspect)

end Assembly

/-! ## 4. The report -/

/-- What a visit reports: the attributes of unknown type in front of the first marker. -/
def Visit.events (v : Visit) : List Event :=
  let tried := v.method.attributes.toList.takeWhile fun x =>
    (CallbackMarker.ofAttribute? x).isNone
  tried.filterMap fun
    | .unresolved reason => some (.skippedAttribute v.type.name.full v.method.name reason)
    | .resolved _ _ => none

/-- The report of a scan: that of all visits up to the first that fails, which is included. -/
def Assembly.scanEvents (a : Assembly) : List Event :=
  let (done, rest) := a.visits.span fun v => (a.inspect v).isOk
  (done ++ rest.take 1).flatMap Visit.events

end InteropTables
