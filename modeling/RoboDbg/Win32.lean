import Mathlib.Data.BitVec
import Mathlib.Logic.Function.Basic
import Mathlib.Order.Lattice

/-!
# The debuggee behind the Win32 debugging API

The engine reaches the debuggee through a few calls only: one-byte and block
reads and writes of its memory, thread contexts, suspend counts and handles.
`Os` holds what these calls read and change. A call that can fail returns an
`Option`, and `fails` says which calls the system refuses.
-/

namespace RoboDbg

/-- The two build targets: `_WIN64` defined or not. -/
inductive Build
  | x86
  | x64
deriving DecidableEq

def Build.bits : Build → ℕ
  | .x86 => 32
  | .x64 => 64

abbrev BYTE := BitVec 8
abbrev WORD := BitVec 16
abbrev DWORD := BitVec 32
abbrev INT := BitVec 32
abbrev BOOL := BitVec 32
abbrev LONG := BitVec 32
abbrev ULONGLONG := BitVec 64
abbrev DWORD_PTR (b : Build) := BitVec b.bits
abbrev LPVOID (b : Build) := DWORD_PTR b
abbrev SIZE_T (b : Build) := DWORD_PTR b
abbrev HMODULE (b : Build) := DWORD_PTR b

/-- A `std::string` that is built from the debuggee's memory. -/
abbrev Text := List BYTE

def literal (s : String) : Text := s.toList.map (fun c => BitVec.ofNat 8 c.toNat)

/-- Lists of thread identifiers are searched with `==`. -/
instance : LawfulBEq DWORD := inferInstance

/-- Opaque to the engine, which only compares and passes handles; `0` is `nullptr`. -/
abbrev HANDLE := ℕ

/-! ## Memory -/

/-- Who wrote a byte last. No function of the engine reads it; statements about
"an int3 written by `setBreakpoint`" do. -/
inductive Writer
  | debuggee
  | setBreakpoint
  | restoreBreakpoint
  | writeMemory
deriving DecidableEq

structure Memory (b : Build) where
  bytes : LPVOID b → BYTE
  writer : LPVOID b → Writer
  readable : LPVOID b → Bool
  writable : LPVOID b → Bool

namespace Memory

variable {b : Build}

def store (m : Memory b) (who : Writer) (a : LPVOID b) (x : BYTE) : Memory b :=
  { m with bytes := Function.update m.bytes a x, writer := Function.update m.writer a who }

def storeAll (who : Writer) (a : LPVOID b) : List BYTE → Memory b → Memory b
  | [], m => m
  | x :: xs, m => storeAll who (a + 1) xs (m.store who a x)

def readByte (m : Memory b) (a : LPVOID b) : Option BYTE :=
  if m.readable a then some (m.bytes a) else none

def view (m : Memory b) (a : LPVOID b) (n : ℕ) : List BYTE :=
  (List.range n).map (fun k => m.bytes (a + BitVec.ofNat _ k))

/-- `ReadProcessMemory`: the whole range is read, or nothing is. -/
def readProcessMemory (m : Memory b) (a : LPVOID b) (n : ℕ) : Option (List BYTE) :=
  if (List.range n).all (fun k => m.readable (a + BitVec.ofNat _ k)) then some (m.view a n)
  else none

def writeProcessMemory (m : Memory b) (who : Writer) (a : LPVOID b) (xs : List BYTE) :
    Option (Memory b) :=
  if (List.range xs.length).all (fun k => m.writable (a + BitVec.ofNat _ k)) then
    some (storeAll who a xs m)
  else none

def Accessible (m : Memory b) : Prop := ∀ a, m.readable a = true ∧ m.writable a = true

@[simp] theorem store_bytes (m : Memory b) (who : Writer) (a : LPVOID b) (x : BYTE) :
    (m.store who a x).bytes = Function.update m.bytes a x := rfl

@[simp] theorem store_writer (m : Memory b) (who : Writer) (a : LPVOID b) (x : BYTE) :
    (m.store who a x).writer = Function.update m.writer a who := rfl

@[simp] theorem length_view (m : Memory b) (a : LPVOID b) (n : ℕ) : (m.view a n).length = n := by
  simp [view]

theorem view_add (m : Memory b) (a : LPVOID b) (n k : ℕ) :
    m.view a (n + k) = m.view a n ++ m.view (a + BitVec.ofNat _ n) k := by
  simp only [view, List.range_add, List.map_append, List.map_map, Function.comp_def,
    BitVec.ofNat_add, BitVec.add_assoc]

theorem view_min (m : Memory b) (a : LPVOID b) (n k : ℕ) :
    m.view a (min n k) = (m.view a n).take k := by
  rw [view, view, ← List.map_take, List.take_range, Nat.min_comm]

theorem take_view (m : Memory b) (a : LPVOID b) {n k : ℕ} (h : k ≤ n) :
    (m.view a n).take k = m.view a k := by
  rw [← view_min, Nat.min_eq_right h]

theorem readProcessMemory_eq_some {m : Memory b} {a : LPVOID b} {n : ℕ} {xs : List BYTE} :
    m.readProcessMemory a n = some xs ↔
      (∀ k < n, m.readable (a + BitVec.ofNat _ k) = true) ∧ m.view a n = xs := by
  simp only [readProcessMemory, List.all_eq_true, List.mem_range]
  by_cases h : ∀ k < n, m.readable (a + BitVec.ofNat _ k) = true
  · rw [if_pos h, Option.some.injEq]
    exact ⟨fun he => ⟨h, he⟩, fun he => he.2⟩
  · rw [if_neg h]
    exact iff_of_false (Option.some_ne_none xs).symm (fun he => h he.1)

theorem readProcessMemory_eq {m : Memory b} {a : LPVOID b} {n : ℕ}
    (h : ∀ k < n, m.readable (a + BitVec.ofNat _ k) = true) :
    m.readProcessMemory a n = some (m.view a n) :=
  readProcessMemory_eq_some.mpr ⟨h, rfl⟩

theorem Accessible.store {m : Memory b} (h : m.Accessible) (who : Writer) (a : LPVOID b)
    (x : BYTE) : (m.store who a x).Accessible := h

theorem Accessible.storeAll {m : Memory b} (h : m.Accessible) (who : Writer) (a : LPVOID b)
    (xs : List BYTE) : (storeAll who a xs m).Accessible := by
  induction xs generalizing a m with
  | nil => exact h
  | cons x xs ih => exact ih (h.store who a x) (a + 1)

theorem Accessible.readByte {m : Memory b} (h : m.Accessible) (a : LPVOID b) :
    m.readByte a = some (m.bytes a) := by
  simp only [Memory.readByte, (h a).1, if_true]

theorem Accessible.writeProcessMemory {m : Memory b} (h : m.Accessible) (who : Writer)
    (a : LPVOID b) (xs : List BYTE) :
    m.writeProcessMemory who a xs = some (Memory.storeAll who a xs m) := by
  have hall : (List.range xs.length).all (fun k => m.writable (a + BitVec.ofNat _ k)) = true :=
    List.all_eq_true.mpr (fun k _ => (h _).2)
  simp only [Memory.writeProcessMemory, hall, if_true]

end Memory

/-! ## Threads -/

/-- The registers of a `CONTEXT` that the engine touches; `Ip` is `Rip` or `Eip`. -/
structure Context (b : Build) where
  Ip : DWORD_PTR b
  EFlags : DWORD
  Dr0 : DWORD_PTR b
  Dr1 : DWORD_PTR b
  Dr2 : DWORD_PTR b
  Dr3 : DWORD_PTR b
  Dr7 : DWORD_PTR b
deriving DecidableEq

inductive ContextFlags
  | CONTROL
  | DEBUG_REGISTERS

namespace Context

variable {b : Build}

def zero : Context b := ⟨0, 0, 0, 0, 0, 0, 0⟩

/-- The registers that the flags select come from `new`, all others from `old`. -/
def merge (flags : ContextFlags) (old new : Context b) : Context b :=
  match flags with
  | .CONTROL => { old with Ip := new.Ip, EFlags := new.EFlags }
  | .DEBUG_REGISTERS =>
    { old with Dr0 := new.Dr0, Dr1 := new.Dr1, Dr2 := new.Dr2, Dr3 := new.Dr3, Dr7 := new.Dr7 }

end Context

structure ThreadObject (b : Build) where
  context : Context b
  suspendCount : ℕ

/-- The open handles of the engine. A closed handle value may be given out again,
an open one is not. -/
structure HandleTable where
  entries : List (HANDLE × DWORD)
  alloc : List (HANDLE × DWORD) → HANDLE
  alloc_fresh : ∀ es, ∀ e ∈ es, e.1 ≠ alloc es

namespace HandleTable

/-- No handle is open; values are given out in ascending order. -/
def empty : HandleTable where
  entries := []
  alloc es := (es.map Prod.fst).foldr max 0 + 1
  alloc_fresh es e he := by
    have hle : e.1 ≤ (es.map Prod.fst).foldr max 0 := by
      induction es with
      | nil => cases he
      | cons x xs ih =>
        rcases List.mem_cons.mp he with rfl | hx
        · exact le_max_left _ _
        · exact (ih hx).trans (le_max_right _ _)
    exact Nat.ne_of_lt (Nat.lt_succ_of_le hle)

def lookup (T : HandleTable) (h : HANDLE) : Option DWORD := T.entries.lookup h

def next (T : HandleTable) : HANDLE := T.alloc T.entries

def insert (T : HandleTable) (tid : DWORD) : HandleTable :=
  { T with entries := (T.next, tid) :: T.entries }

def close (T : HandleTable) (h : HANDLE) : HandleTable :=
  { T with entries := T.entries.filter (fun e => e.1 ≠ h) }

def Extends (T T' : HandleTable) : Prop :=
  ∀ h tid, T.lookup h = some tid → T'.lookup h = some tid

theorem mem_of_lookup {T : HandleTable} {h : HANDLE} {tid : DWORD}
    (hl : T.lookup h = some tid) : (h, tid) ∈ T.entries := by
  unfold lookup at hl
  rw [List.lookup_eq_some_iff] at hl
  obtain ⟨l₁, l₂, hes, -⟩ := hl
  simp [hes]

@[simp] theorem lookup_insert_next (T : HandleTable) (tid : DWORD) :
    (T.insert tid).lookup T.next = some tid := by
  simp [lookup, insert]

@[simp] theorem lookup_next (T : HandleTable) : T.lookup T.next = none := by
  cases hl : T.lookup T.next with
  | none => rfl
  | some tid => exact absurd rfl (T.alloc_fresh _ _ (mem_of_lookup hl))

theorem lookup_filter_ne (es : List (HANDLE × DWORD)) {h h' : HANDLE} (hne : h ≠ h') :
    (es.filter (fun e => e.1 ≠ h')).lookup h = es.lookup h := by
  induction es with
  | nil => rfl
  | cons e es ih =>
    obtain ⟨x, tid⟩ := e
    by_cases hx : x = h'
    · have hb : (h == x) = false := by simpa [hx] using hne
      rw [List.filter_cons_of_neg (by simp [hx]), ih, List.lookup_cons, hb]
    · rw [List.filter_cons_of_pos (by simp [hx]), List.lookup_cons, List.lookup_cons, ih]

theorem lookup_close {T : HandleTable} {h h' : HANDLE} (hne : h ≠ h') :
    (T.close h').lookup h = T.lookup h :=
  lookup_filter_ne T.entries hne

@[simp] theorem lookup_close_self (T : HandleTable) (h : HANDLE) : (T.close h).lookup h = none := by
  cases hl : (T.close h).lookup h with
  | none => rfl
  | some tid => simpa [close] using mem_of_lookup hl

theorem lookup_of_lookup_close {T : HandleTable} {h h' : HANDLE} {tid : DWORD}
    (hl : (T.close h').lookup h = some tid) : T.lookup h = some tid := by
  by_cases hne : h = h'
  · have hmem := mem_of_lookup hl
    simp [close, hne] at hmem
  · rwa [lookup_close hne] at hl

theorem lookup_of_lookup_insert {T : HandleTable} {h : HANDLE} {tid u : DWORD}
    (hl : (T.insert u).lookup h = some tid) : tid = u ∨ T.lookup h = some tid := by
  by_cases hh : h = T.next
  · rw [hh, lookup_insert_next, Option.some.injEq] at hl
    exact Or.inl hl.symm
  · have hb : (h == T.next) = false := by simpa using hh
    simp only [lookup, insert, List.lookup_cons, hb] at hl
    exact Or.inr hl

theorem extends_insert (T : HandleTable) (tid : DWORD) : T.Extends (T.insert tid) := by
  intro h u hl
  have hne : h ≠ T.next := T.alloc_fresh _ _ (mem_of_lookup hl)
  have hb : (h == T.next) = false := by simpa using hne
  simpa only [lookup, insert, List.lookup_cons, hb] using hl

theorem close_insert (T : HandleTable) (tid : DWORD) : (T.insert tid).close T.next = T := by
  have hkept : T.entries.filter (fun e => e.1 ≠ T.next) = T.entries :=
    List.filter_eq_self.mpr (fun e he => decide_eq_true (T.alloc_fresh _ e he))
  simp only [close, insert, List.filter_cons_of_neg, ne_eq, not_true_eq_false, decide_false,
    Bool.false_eq_true, not_false_eq_true]
  rw [hkept]

theorem Extends.refl (T : HandleTable) : T.Extends T := fun _ _ h => h

theorem Extends.lookup_none {T T' : HandleTable} (h : T.Extends T') {x : HANDLE}
    (hn : T'.lookup x = none) : T.lookup x = none := by
  cases hl : T.lookup x with
  | none => rfl
  | some tid =>
    rw [h x tid hl] at hn
    cases hn

theorem Extends.trans {T T' T'' : HandleTable} (h : T.Extends T') (h' : T'.Extends T'') :
    T.Extends T'' := fun x tid hl => h' x tid (h x tid hl)

end HandleTable

/-! ## Text -/

inductive CodePage
  | ACP
  | UTF8

/-- How characters become a string: the system's code pages, and what a string function
meets that leaves a local buffer. -/
structure TextServices where
  /-- `WideCharToMultiByte` of a string without its terminator. -/
  wideCharToMultiByte : CodePage → List WORD → Text
  /-- The characters from the end of a local buffer to the next NUL. -/
  beyond : Text
  beyondWide : List WORD
  /-- What a local buffer reads as that a failed conversion has left behind. -/
  unconverted : Text

/-- Every character is one byte, and a buffer is followed by a NUL. -/
def TextServices.ascii : TextServices :=
  ⟨fun _ xs => xs.map (fun x => x.setWidth 8), [], [], []⟩

/-! ## Calls -/

/-- The calls the system may refuse, per thread where they name one. -/
inductive ApiCall
  | getProcessId
  | createToolhelp32Snapshot
  | openThread (tid : DWORD)
  | getThreadContext (tid : DWORD)
  | setThreadContext (tid : DWORD)
  | suspendThread (tid : DWORD)
  | resumeThread (tid : DWORD)
deriving DecidableEq

structure ThreadEntry32 where
  th32OwnerProcessID : DWORD
  th32ThreadID : DWORD

structure Os (b : Build) where
  memory : Memory b
  thread : DWORD → ThreadObject b
  /-- All threads of the system, in the order a snapshot lists them. -/
  snapshot : List ThreadEntry32
  processId : DWORD
  handles : HandleTable
  fails : ApiCall → Bool
  /-- What an uninitialised `BYTE` local holds. -/
  indeterminate : BYTE
  text : TextServices

namespace Os

variable {b : Build}

def context (os : Os b) (tid : DWORD) : Context b := (os.thread tid).context

def withThread (os : Os b) (tid : DWORD) (obj : ThreadObject b) : Os b :=
  { os with thread := Function.update os.thread tid obj }

def withContext (os : Os b) (tid : DWORD) (ctx : Context b) : Os b :=
  os.withThread tid { os.thread tid with context := ctx }

/-- The debuggee's threads, as the snapshot loop of `actualizeThreadList` selects them. -/
def processThreads (os : Os b) : List DWORD :=
  (os.snapshot.filter (fun te => te.th32OwnerProcessID = os.processId)).map (·.th32ThreadID)

def openThread (os : Os b) (tid : DWORD) : Option (HANDLE × Os b) :=
  if os.fails (.openThread tid) then none
  else some (os.handles.next, { os with handles := os.handles.insert tid })

def closeHandle (os : Os b) (h : HANDLE) : Os b := { os with handles := os.handles.close h }

def getThreadContext (os : Os b) (flags : ContextFlags) (h : HANDLE) : Option (Context b) :=
  match os.handles.lookup h with
  | none => none
  | some tid =>
    if os.fails (.getThreadContext tid) then none
    else some (Context.zero.merge flags (os.context tid))

def setThreadContext (os : Os b) (flags : ContextFlags) (h : HANDLE) (ctx : Context b) :
    Option (Os b) :=
  match os.handles.lookup h with
  | none => none
  | some tid =>
    if os.fails (.setThreadContext tid) then none
    else some (os.withContext tid ((os.context tid).merge flags ctx))

/-- `none` stands for the result `(DWORD)-1`. A count that has reached the maximum is one of
the reasons for which `fails` refuses the call. -/
def suspendThread (os : Os b) (h : HANDLE) : Option (Os b) :=
  match os.handles.lookup h with
  | none => none
  | some tid =>
    if os.fails (.suspendThread tid) then none
    else some (os.withThread tid
      { os.thread tid with suspendCount := (os.thread tid).suspendCount + 1 })

def resumeThread (os : Os b) (h : HANDLE) : Option (Os b) :=
  match os.handles.lookup h with
  | none => none
  | some tid =>
    if os.fails (.resumeThread tid) then none
    else some (os.withThread tid
      { os.thread tid with suspendCount := (os.thread tid).suspendCount - 1 })

/-- A stopped process with the given code and threads: all registers are clear,
all memory is accessible and no call is refused. -/
def ofCode (code : LPVOID b → BYTE) (tids : List DWORD) : Os b where
  memory := ⟨code, fun _ => .debuggee, fun _ => true, fun _ => true⟩
  thread _ := ⟨Context.zero, 0⟩
  snapshot := tids.map (fun tid => ⟨1, tid⟩)
  processId := 1
  handles := .empty
  fails _ := false
  indeterminate := 0
  text := .ascii

def Reliable (os : Os b) : Prop := ∀ c, os.fails c = false

@[simp] theorem withThread_withThread (os : Os b) (tid : DWORD) (obj obj' : ThreadObject b) :
    (os.withThread tid obj).withThread tid obj' = os.withThread tid obj' := by
  simp [withThread]

@[simp] theorem withThread_thread (os : Os b) (tid : DWORD) (obj : ThreadObject b) :
    (os.withThread tid obj).thread tid = obj := by
  simp [withThread]

@[simp] theorem context_withContext (os : Os b) (tid : DWORD) (ctx : Context b) :
    (os.withContext tid ctx).context = Function.update os.context tid ctx := by
  funext u
  by_cases hu : u = tid
  · subst hu
    simp [context, withContext]
  · simp [context, withContext, withThread, Function.update_of_ne hu]

/-- The shape of every call on a thread handle: look the handle up, then be refused or not. -/
theorem guarded_eq_some {α : Type*} {o : Option DWORD} {refused : DWORD → Bool} {f : DWORD → α}
    {x : α} :
    (match o with
      | none => none
      | some tid => if refused tid then none else some (f tid)) = some x ↔
      ∃ tid, o = some tid ∧ refused tid = false ∧ x = f tid := by
  cases o with
  | none => simp
  | some tid =>
    cases hf : refused tid with
    | true => simp [hf]
    | false =>
      simp only [hf, Bool.false_eq_true, if_false, Option.some.injEq]
      constructor
      · rintro rfl
        exact ⟨tid, rfl, hf, rfl⟩
      · rintro ⟨u, rfl, -, rfl⟩
        rfl

theorem getThreadContext_eq_some {os : Os b} {flags : ContextFlags} {h : HANDLE} {ctx : Context b} :
    os.getThreadContext flags h = some ctx ↔
      ∃ tid, os.handles.lookup h = some tid ∧ os.fails (.getThreadContext tid) = false ∧
        ctx = Context.zero.merge flags (os.context tid) :=
  guarded_eq_some

theorem setThreadContext_eq_some {os os' : Os b} {flags : ContextFlags} {h : HANDLE}
    {ctx : Context b} :
    os.setThreadContext flags h ctx = some os' ↔
      ∃ tid, os.handles.lookup h = some tid ∧ os.fails (.setThreadContext tid) = false ∧
        os' = os.withContext tid ((os.context tid).merge flags ctx) :=
  guarded_eq_some

theorem suspendThread_eq_some {os os' : Os b} {h : HANDLE} :
    os.suspendThread h = some os' ↔
      ∃ tid, os.handles.lookup h = some tid ∧ os.fails (.suspendThread tid) = false ∧
        os' = os.withThread tid
          { os.thread tid with suspendCount := (os.thread tid).suspendCount + 1 } :=
  guarded_eq_some

theorem resumeThread_eq_some {os os' : Os b} {h : HANDLE} :
    os.resumeThread h = some os' ↔
      ∃ tid, os.handles.lookup h = some tid ∧ os.fails (.resumeThread tid) = false ∧
        os' = os.withThread tid
          { os.thread tid with suspendCount := (os.thread tid).suspendCount - 1 } :=
  guarded_eq_some

theorem resumed_eq {os os₁ os₂ os₃ : Os b} {flags : ContextFlags} {h : HANDLE} {ctx : Context b}
    (h₁ : os.suspendThread h = some os₁) (h₂ : os₁.setThreadContext flags h ctx = some os₂)
    (h₃ : os₂.resumeThread h = some os₃) :
    ∃ tid, os.handles.lookup h = some tid ∧
      os₃ = os.withContext tid ((os.context tid).merge flags ctx) := by
  obtain ⟨tid, hl, -, rfl⟩ := suspendThread_eq_some.mp h₁
  obtain ⟨tid₂, hl₂, -, rfl⟩ := setThreadContext_eq_some.mp h₂
  obtain ⟨tid₃, hl₃, -, rfl⟩ := resumeThread_eq_some.mp h₃
  obtain rfl : tid = tid₂ := Option.some.inj (hl.symm.trans hl₂)
  obtain rfl : tid = tid₃ := Option.some.inj (hl.symm.trans hl₃)
  refine ⟨tid, hl, ?_⟩
  simp [withContext, context]

section Reliable

variable {os : Os b} (hr : os.Reliable) {h : HANDLE} {tid : DWORD}
  (hl : os.handles.lookup h = some tid) (flags : ContextFlags) (ctx : Context b)
include hr hl

theorem Reliable.getThreadContext :
    os.getThreadContext flags h = some (Context.zero.merge flags (os.context tid)) :=
  getThreadContext_eq_some.mpr ⟨tid, hl, hr _, rfl⟩

theorem Reliable.setThreadContext :
    os.setThreadContext flags h ctx =
      some (os.withContext tid ((os.context tid).merge flags ctx)) :=
  setThreadContext_eq_some.mpr ⟨tid, hl, hr _, rfl⟩

/-- The engine's pattern for a context change: suspend, set, resume. -/
theorem Reliable.suspend_set_resume :
    ∃ os₁ os₂, os.suspendThread h = some os₁ ∧ os₁.setThreadContext flags h ctx = some os₂ ∧
      os₂.resumeThread h = some (os.withContext tid ((os.context tid).merge flags ctx)) := by
  let os₁ := os.withThread tid
    { os.thread tid with suspendCount := (os.thread tid).suspendCount + 1 }
  let os₂ := os₁.withContext tid ((os₁.context tid).merge flags ctx)
  let os₃ := os₂.withThread tid
    { os₂.thread tid with suspendCount := (os₂.thread tid).suspendCount - 1 }
  have h₁ : os.suspendThread h = some os₁ := suspendThread_eq_some.mpr ⟨tid, hl, hr _, rfl⟩
  have h₂ : os₁.setThreadContext flags h ctx = some os₂ :=
    setThreadContext_eq_some.mpr ⟨tid, hl, hr _, rfl⟩
  have h₃ : os₂.resumeThread h = some os₃ := resumeThread_eq_some.mpr ⟨tid, hl, hr _, rfl⟩
  obtain ⟨tid', hl', he⟩ := resumed_eq h₁ h₂ h₃
  obtain rfl : tid = tid' := Option.some.inj (hl.symm.trans hl')
  exact ⟨os₁, os₂, h₁, h₂, he ▸ h₃⟩

end Reliable

end Os
end RoboDbg
