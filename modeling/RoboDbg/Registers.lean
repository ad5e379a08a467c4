import RoboDbg.Foundation.BitFields
import RoboDbg.Foundation.LastWrites
import RoboDbg.Win32

/-!
# Registers and flags

`getRegister` and `setRegister` transfer the whole context of a thread, `getFlag` and
`setFlag` its control and integer parts, inside a suspension of their own whose result
they do not look at.
-/

namespace RoboDbg

/-! ## Contexts with integer registers -/

inductive Register64
  | RAX | RBX | RCX | RDX | RSI | RDI | RBP | RSP
  | R8 | R9 | R10 | R11 | R12 | R13 | R14 | R15
  | RIP
deriving DecidableEq

inductive Register32
  | EAX | EBX | ECX | EDX | ESI | EDI | EBP | ESP
  | EIP
deriving DecidableEq

def Register : Build → Type
  | .x86 => Register32
  | .x64 => Register64

instance : (b : Build) → DecidableEq (Register b)
  | .x86 => inferInstanceAs (DecidableEq Register32)
  | .x64 => inferInstanceAs (DecidableEq Register64)

structure Integers64 where
  (Rax Rbx Rcx Rdx Rsi Rdi Rbp Rsp R8 R9 R10 R11 R12 R13 R14 R15 : DWORD_PTR .x64)
deriving DecidableEq

structure Integers32 where
  (Eax Ebx Ecx Edx Esi Edi Ebp Esp : DWORD_PTR .x86)
deriving DecidableEq

def Integers : Build → Type
  | .x86 => Integers32
  | .x64 => Integers64

variable {b : Build}

structure FullContext (b : Build) where
  control : Context b
  integers : Integers b

/-- `CONTEXT_FULL` leaves the debug registers out. -/
inductive FullFlags
  | FULL
  | ALL

def Integers.zero : (b : Build) → Integers b
  | .x86 => (⟨0, 0, 0, 0, 0, 0, 0, 0⟩ : Integers32)
  | .x64 => (⟨0, 0, 0, 0, 0, 0, 0, 0, 0, 0, 0, 0, 0, 0, 0, 0⟩ : Integers64)

namespace FullContext

def zero : FullContext b := ⟨.zero, .zero b⟩

def get64 (ctx : FullContext .x64) : Register64 → DWORD_PTR .x64
  | .RAX => ctx.integers.Rax
  | .RBX => ctx.integers.Rbx
  | .RCX => ctx.integers.Rcx
  | .RDX => ctx.integers.Rdx
  | .RSI => ctx.integers.Rsi
  | .RDI => ctx.integers.Rdi
  | .RBP => ctx.integers.Rbp
  | .RSP => ctx.integers.Rsp
  | .R8 => ctx.integers.R8
  | .R9 => ctx.integers.R9
  | .R10 => ctx.integers.R10
  | .R11 => ctx.integers.R11
  | .R12 => ctx.integers.R12
  | .R13 => ctx.integers.R13
  | .R14 => ctx.integers.R14
  | .R15 => ctx.integers.R15
  | .RIP => ctx.control.Ip

def set64 (ctx : FullContext .x64) (reg : Register64) (value : DWORD_PTR .x64) :
    FullContext .x64 :=
  match reg with
  | .RAX => { ctx with integers := { ctx.integers with Rax := value } }
  | .RBX => { ctx with integers := { ctx.integers with Rbx := value } }
  | .RCX => { ctx with integers := { ctx.integers with Rcx := value } }
  | .RDX => { ctx with integers := { ctx.integers with Rdx := value } }
  | .RSI => { ctx with integers := { ctx.integers with Rsi := value } }
  | .RDI => { ctx with integers := { ctx.integers with Rdi := value } }
  | .RBP => { ctx with integers := { ctx.integers with Rbp := value } }
  | .RSP => { ctx with integers := { ctx.integers with Rsp := value } }
  | .R8 => { ctx with integers := { ctx.integers with R8 := value } }
  | .R9 => { ctx with integers := { ctx.integers with R9 := value } }
  | .R10 => { ctx with integers := { ctx.integers with R10 := value } }
  | .R11 => { ctx with integers := { ctx.integers with R11 := value } }
  | .R12 => { ctx with integers := { ctx.integers with R12 := value } }
  | .R13 => { ctx with integers := { ctx.integers with R13 := value } }
  | .R14 => { ctx with integers := { ctx.integers with R14 := value } }
  | .R15 => { ctx with integers := { ctx.integers with R15 := value } }
  | .RIP => { ctx with control := { ctx.control with Ip := value } }

def get32 (ctx : FullContext .x86) : Register32 → DWORD_PTR .x86
  | .EAX => ctx.integers.Eax
  | .EBX => ctx.integers.Ebx
  | .ECX => ctx.integers.Ecx
  | .EDX => ctx.integers.Edx
  | .ESI => ctx.integers.Esi
  | .EDI => ctx.integers.Edi
  | .EBP => ctx.integers.Ebp
  | .ESP => ctx.integers.Esp
  | .EIP => ctx.control.Ip

def set32 (ctx : FullContext .x86) (reg : Register32) (value : DWORD_PTR .x86) :
    FullContext .x86 :=
  match reg with
  | .EAX => { ctx with integers := { ctx.integers with Eax := value } }
  | .EBX => { ctx with integers := { ctx.integers with Ebx := value } }
  | .ECX => { ctx with integers := { ctx.integers with Ecx := value } }
  | .EDX => { ctx with integers := { ctx.integers with Edx := value } }
  | .ESI => { ctx with integers := { ctx.integers with Esi := value } }
  | .EDI => { ctx with integers := { ctx.integers with Edi := value } }
  | .EBP => { ctx with integers := { ctx.integers with Ebp := value } }
  | .ESP => { ctx with integers := { ctx.integers with Esp := value } }
  | .EIP => { ctx with control := { ctx.control with Ip := value } }

/-- The `switch` of `getRegister`. -/
def get : {b : Build} → FullContext b → Register b → DWORD_PTR b
  | .x86 => get32
  | .x64 => get64

/-- The `switch` of `setRegister`. -/
def set : {b : Build} → FullContext b → Register b → DWORD_PTR b → FullContext b
  | .x86 => set32
  | .x64 => set64

theorem get_set_self (ctx : FullContext b) (reg : Register b) (value : DWORD_PTR b) :
    (ctx.set reg value).get reg = value := by
  cases b <;> cases reg <;> rfl

theorem get_set_of_ne (ctx : FullContext b) {reg reg' : Register b} (value : DWORD_PTR b)
    (hne : reg' ≠ reg) : (ctx.set reg value).get reg' = ctx.get reg' := by
  cases b <;> cases reg <;> cases reg' <;> first | rfl | exact absurd rfl hne

theorem set_control (ctx : FullContext b) (reg : Register b) (value : DWORD_PTR b) :
    (ctx.set reg value).control = { ctx.control with Ip := (ctx.set reg value).control.Ip } := by
  cases b <;> cases reg <;> rfl

def merge (flags : FullFlags) (old new : FullContext b) : FullContext b :=
  match flags with
  | .FULL => ⟨{ old.control with Ip := new.control.Ip, EFlags := new.control.EFlags }, new.integers⟩
  | .ALL => new

end FullContext

/-! ## Flags -/

/-- `Flags64` and `Flags32`. -/
inductive Flags
  | CF | PF | AF | ZF | SF | TF | IF | DF | OF
deriving DecidableEq

namespace Flags

def position : Flags → ℕ
  | .CF => 0
  | .PF => 2
  | .AF => 4
  | .ZF => 6
  | .SF => 7
  | .TF => 8
  | .IF => 9
  | .DF => 10
  | .OF => 11

/-- The enumerator, a `DWORD64` or a `DWORD`. -/
def value (b : Build) (flag : Flags) : BitVec b.bits := 1#_ <<< flag.position

theorem position_lt (flag : Flags) : flag.position < 32 := by
  cases flag <;> decide

theorem position_injective : Function.Injective position := by
  intro flag flag' h
  cases flag <;> cases flag' <;> first | rfl | cases h

def assign (b : Build) (flag : Flags) (enabled : Bool) (EFlags : DWORD) : DWORD :=
  if enabled then (EFlags.setWidth b.bits ||| flag.value b).setWidth 32
  else (EFlags.setWidth b.bits &&& ~~~flag.value b).setWidth 32

def test (b : Build) (flag : Flags) (EFlags : DWORD) : Bool :=
  EFlags.setWidth b.bits &&& flag.value b ≠ 0

theorem bits_ge (b : Build) : 32 ≤ b.bits := by
  cases b <;> decide

theorem getLsbD_value (b : Build) (flag : Flags) {k : ℕ} (hk : k < 32) :
    (flag.value b).getLsbD k = decide (k = flag.position) :=
  BitField.getLsbD_one_shift _ (hk.trans_le (bits_ge b))

theorem getLsbD_assign (b : Build) (flag : Flags) (enabled : Bool) (EFlags : DWORD) {k : ℕ}
    (hk : k < 32) : (flag.assign b enabled EFlags).getLsbD k =
      if k = flag.position then enabled else EFlags.getLsbD k := by
  have hkb : k < b.bits := hk.trans_le (bits_ge b)
  unfold assign
  cases enabled with
  | true =>
    rw [if_pos rfl, BitVec.getLsbD_setWidth, BitVec.getLsbD_or, BitVec.getLsbD_setWidth,
      getLsbD_value b flag hk, decide_eq_true hk, decide_eq_true hkb]
    by_cases hpos : k = flag.position <;> simp [hpos]
  | false =>
    rw [if_neg Bool.false_ne_true, BitVec.getLsbD_setWidth, BitVec.getLsbD_and,
      BitVec.getLsbD_setWidth, BitVec.getLsbD_not, getLsbD_value b flag hk, decide_eq_true hk,
      decide_eq_true hkb]
    by_cases hpos : k = flag.position <;> simp [hpos]

theorem test_eq (b : Build) (flag : Flags) (EFlags : DWORD) :
    flag.test b EFlags = EFlags.getLsbD flag.position := by
  have hbit : (EFlags.setWidth b.bits &&& flag.value b).getLsbD flag.position =
      EFlags.getLsbD flag.position := by
    have hkb : flag.position < b.bits := flag.position_lt.trans_le (bits_ge b)
    rw [BitVec.getLsbD_and, BitVec.getLsbD_setWidth, getLsbD_value b flag flag.position_lt,
      decide_eq_true hkb, decide_eq_true rfl, Bool.true_and, Bool.and_true]
  unfold test
  cases hset : EFlags.getLsbD flag.position with
  | true =>
    refine decide_eq_true (fun hzero => ?_)
    rw [hzero, hset] at hbit
    simp at hbit
  | false =>
    refine decide_eq_false (not_not.mpr ?_)
    apply BitVec.eq_of_getLsbD_eq
    intro k hk
    change _ = (0#b.bits).getLsbD k
    rw [BitVec.getLsbD_zero]
    by_cases hpos : k = flag.position
    · rw [hpos, hbit, hset]
    · rw [BitVec.getLsbD_and, value, BitField.getLsbD_one_shift _ hk, decide_eq_false hpos,
        Bool.and_false]

end Flags

/-! ## The four functions -/

/-- The debuggee with the integer registers of its threads. -/
structure FullOs (b : Build) where
  os : Os b
  integers : DWORD → Integers b

namespace FullOs

def full (s : FullOs b) (tid : DWORD) : FullContext b := ⟨s.os.context tid, s.integers tid⟩

def getThreadContext (s : FullOs b) (flags : FullFlags) (h : HANDLE) : Option (FullContext b) :=
  match s.os.handles.lookup h with
  | none => none
  | some tid =>
    if s.os.fails (.getThreadContext tid) then none
    else some (FullContext.zero.merge flags (s.full tid))

def setThreadContext (s : FullOs b) (flags : FullFlags) (h : HANDLE) (ctx : FullContext b) :
    Option (FullOs b) :=
  match s.os.handles.lookup h with
  | none => none
  | some tid =>
    if s.os.fails (.setThreadContext tid) then none
    else
      let merged := (s.full tid).merge flags ctx
      some ⟨s.os.withContext tid merged.control, Function.update s.integers tid merged.integers⟩

/-- `SuspendThread` and `ResumeThread`, whose results are not looked at. -/
def suspendThread (s : FullOs b) (h : HANDLE) : FullOs b :=
  { s with os := (s.os.suspendThread h).getD s.os }

def resumeThread (s : FullOs b) (h : HANDLE) : FullOs b :=
  { s with os := (s.os.resumeThread h).getD s.os }

def getRegister (hThread : HANDLE) (reg : Register b) (s : FullOs b) : DWORD_PTR b :=
  match s.getThreadContext .ALL hThread with
  | none => -1
  | some ctx => ctx.get reg

def setRegister (hThread : HANDLE) (reg : Register b) (value : DWORD_PTR b) (s : FullOs b) :
    FullOs b :=
  match s.getThreadContext .ALL hThread with
  | none => s
  | some ctx => (s.setThreadContext .ALL hThread (ctx.set reg value)).getD s

def getFlag (hThread : HANDLE) (flag : Flags) (s : FullOs b) : Bool × FullOs b :=
  let s₁ := s.suspendThread hThread
  match s₁.getThreadContext .FULL hThread with
  | none => (false, s₁.resumeThread hThread)
  | some ctx => (flag.test b ctx.control.EFlags, s₁.resumeThread hThread)

def setFlag (hThread : HANDLE) (flag : Flags) (enabled : Bool) (s : FullOs b) : FullOs b :=
  let s₁ := s.suspendThread hThread
  match s₁.getThreadContext .FULL hThread with
  | none => s₁.resumeThread hThread
  | some ctx =>
    let ctx' := { ctx with control :=
      { ctx.control with EFlags := flag.assign b enabled ctx.control.EFlags } }
    ((s₁.setThreadContext .FULL hThread ctx').getD s₁).resumeThread hThread

/-! ## What each of them changes -/

variable {s : FullOs b} {h : HANDLE} {tid : DWORD}

def readable (os : Os b) (h : HANDLE) : Option DWORD :=
  (os.handles.lookup h).filter (fun tid => !os.fails (.getThreadContext tid))

def changeable (os : Os b) (h : HANDLE) : Option DWORD :=
  (readable os h).filter (fun tid => !os.fails (.setThreadContext tid))

def SameAccess (os os' : Os b) : Prop := os'.handles = os.handles ∧ os'.fails = os.fails

theorem SameAccess.readable {os os' : Os b} (h : SameAccess os os') (x : HANDLE) :
    readable os' x = FullOs.readable os x := by
  simp only [FullOs.readable, h.1, h.2]

theorem SameAccess.changeable {os os' : Os b} (h : SameAccess os os') (x : HANDLE) :
    changeable os' x = FullOs.changeable os x := by
  simp only [FullOs.changeable, h.readable, h.2]

theorem SameAccess.trans {os os' os'' : Os b} (h : SameAccess os os') (h' : SameAccess os' os'') :
    SameAccess os os'' :=
  ⟨h'.1.trans h.1, h'.2.trans h.2⟩

theorem getThreadContext_eq (flags : FullFlags) :
    s.getThreadContext flags h =
      (readable s.os h).map (fun tid => FullContext.zero.merge flags (s.full tid)) := by
  unfold getThreadContext readable
  cases s.os.handles.lookup h with
  | none => rfl
  | some tid => cases hfail : s.os.fails (.getThreadContext tid) <;> simp [hfail]

def withFull (s : FullOs b) (tid : DWORD) (ctx : FullContext b) : FullOs b :=
  ⟨s.os.withContext tid ctx.control, Function.update s.integers tid ctx.integers⟩

theorem full_withFull (s : FullOs b) (tid : DWORD) (ctx : FullContext b) :
    (s.withFull tid ctx).full = Function.update s.full tid ctx := by
  funext u
  by_cases hu : u = tid
  · subst hu
    simp [full, withFull]
  · simp [full, withFull, Function.update_of_ne hu]

theorem setThreadContext_getD (flags : FullFlags) (ctx : FullContext b)
    (hread : readable s.os h = some tid) :
    (s.setThreadContext flags h ctx).getD s =
      match changeable s.os h with
      | none => s
      | some tid => s.withFull tid ((s.full tid).merge flags ctx) := by
  have hlookup : s.os.handles.lookup h = some tid := (Option.filter_eq_some_iff.mp hread).1
  simp only [setThreadContext, changeable, hread, hlookup, Option.filter_some]
  cases hfail : s.os.fails (.setThreadContext tid) <;> simp [withFull]

theorem suspendThread_spec (s : FullOs b) (h : HANDLE) :
    (s.suspendThread h).full = s.full ∧ SameAccess s.os (s.suspendThread h).os := by
  unfold suspendThread
  cases hs : s.os.suspendThread h with
  | none => exact ⟨rfl, rfl, rfl⟩
  | some os' =>
    obtain ⟨tid, -, -, rfl⟩ := Os.suspendThread_eq_some.mp hs
    refine ⟨funext (fun u => ?_), rfl, rfl⟩
    by_cases hu : u = tid
    · subst hu
      simp [full, Os.context]
    · simp [full, Os.context, Os.withThread, Function.update_of_ne hu]

theorem resumeThread_spec (s : FullOs b) (h : HANDLE) :
    (s.resumeThread h).full = s.full ∧ SameAccess s.os (s.resumeThread h).os := by
  unfold resumeThread
  cases hs : s.os.resumeThread h with
  | none => exact ⟨rfl, rfl, rfl⟩
  | some os' =>
    obtain ⟨tid, -, -, rfl⟩ := Os.resumeThread_eq_some.mp hs
    refine ⟨funext (fun u => ?_), rfl, rfl⟩
    by_cases hu : u = tid
    · subst hu
      simp [full, Os.context]
    · simp [full, Os.context, Os.withThread, Function.update_of_ne hu]

theorem getRegister_eq (h : HANDLE) (reg : Register b) (s : FullOs b) :
    s.getRegister h reg =
      match readable s.os h with
      | none => -1
      | some tid => (s.full tid).get reg := by
  rw [getRegister, getThreadContext_eq]
  cases readable s.os h <;> rfl

theorem setRegister_spec (h : HANDLE) (reg : Register b) (value : DWORD_PTR b) (s : FullOs b) :
    s.setRegister h reg value =
      match changeable s.os h with
      | none => s
      | some tid => s.withFull tid ((s.full tid).set reg value) := by
  unfold setRegister
  rw [getThreadContext_eq]
  cases hread : readable s.os h with
  | none => simp only [Option.map_none, changeable, hread, Option.filter_none]
  | some tid =>
    simp only [Option.map_some, setThreadContext_getD _ _ hread]
    cases hchange : changeable s.os h with
    | none => rfl
    | some u =>
      have hu : readable s.os h = some u := (Option.filter_eq_some_iff.mp hchange).1
      obtain rfl : tid = u := Option.some.inj (hread.symm.trans hu)
      rfl

theorem getFlag_spec (h : HANDLE) (flag : Flags) (s : FullOs b) :
    (s.getFlag h flag).1 = (match readable s.os h with
      | none => false
      | some tid => flag.test b (s.full tid).control.EFlags) ∧
    (s.getFlag h flag).2.full = s.full ∧ SameAccess s.os (s.getFlag h flag).2.os := by
  obtain ⟨hfull, hsame⟩ := suspendThread_spec s h
  obtain ⟨hfull', hsame'⟩ := resumeThread_spec (s.suspendThread h) h
  simp only [getFlag, getThreadContext_eq, hsame.readable]
  cases readable s.os h with
  | none => exact ⟨rfl, hfull'.trans hfull, hsame.trans hsame'⟩
  | some tid =>
    refine ⟨?_, hfull'.trans hfull, hsame.trans hsame'⟩
    simp only [Option.map_some, hfull]
    rfl

def withFlag (ctx : FullContext b) (flag : Flags) (enabled : Bool) : FullContext b :=
  { ctx with control := { ctx.control with EFlags := flag.assign b enabled ctx.control.EFlags } }

theorem setFlag_spec (h : HANDLE) (flag : Flags) (enabled : Bool) (s : FullOs b) :
    (s.setFlag h flag enabled).full = (match changeable s.os h with
      | none => s.full
      | some tid => Function.update s.full tid (withFlag (s.full tid) flag enabled)) ∧
    SameAccess s.os (s.setFlag h flag enabled).os := by
  obtain ⟨hfull, hsame⟩ := suspendThread_spec s h
  simp only [setFlag, getThreadContext_eq, hsame.readable]
  cases hread : readable s.os h with
  | none =>
    obtain ⟨hfull', hsame'⟩ := resumeThread_spec (s.suspendThread h) h
    simp only [Option.map_none, changeable, hread, Option.filter_none]
    exact ⟨hfull'.trans hfull, hsame.trans hsame'⟩
  | some tid =>
    have hread₁ : readable (s.suspendThread h).os h = some tid := (hsame.readable h).trans hread
    simp only [Option.map_some, setThreadContext_getD _ _ hread₁, hsame.changeable]
    cases hchange : changeable s.os h with
    | none =>
      obtain ⟨hfull', hsame'⟩ := resumeThread_spec (s.suspendThread h) h
      exact ⟨hfull'.trans hfull, hsame.trans hsame'⟩
    | some u =>
      have hu : readable s.os h = some u := (Option.filter_eq_some_iff.mp hchange).1
      obtain rfl : tid = u := Option.some.inj (hread.symm.trans hu)
      simp only
      generalize hctx : FullContext.merge .FULL ((s.suspendThread h).full tid) _ = ctx
      obtain ⟨hfull', hsame'⟩ := resumeThread_spec ((s.suspendThread h).withFull tid ctx) h
      rw [hfull', full_withFull, hfull]
      refine ⟨?_, hsame.trans hsame'⟩
      rw [← hctx, hfull]
      rfl

end FullOs
end RoboDbg
