import RoboDbg.Registers

/-!
# Runs of register and flag calls

Calls on several threads, through handles and with refusals that change from call to call:
a register or a flag answers with the last value that a call has got through to it, and
nothing else in a context changes. The suspensions around the flag calls cancel out
unless exactly one half of them is refused.
-/

namespace RoboDbg

open LastWrites

variable {b : Build}

inductive RegisterCall (b : Build)
  | getRegister (hThread : HANDLE) (reg : Register b)
  | setRegister (hThread : HANDLE) (reg : Register b) (value : DWORD_PTR b)
  | getFlag (hThread : HANDLE) (flag : Flags)
  | setFlag (hThread : HANDLE) (flag : Flags) (enabled : Bool)

namespace FullOs

def perform (s : FullOs b) : RegisterCall b → FullOs b
  | .getRegister _ _ => s
  | .setRegister h reg value => s.setRegister h reg value
  | .getFlag h flag => (s.getFlag h flag).2
  | .setFlag h flag enabled => s.setFlag h flag enabled

def writtenRegister (os : Os b) : RegisterCall b → DWORD × Register b → Option (DWORD_PTR b)
  | .setRegister h reg value, k => if changeable os h = some k.1 ∧ k.2 = reg then some value else none
  | _, _ => none

def writtenFlag (os : Os b) : RegisterCall b → DWORD × Flags → Option Bool
  | .setFlag h flag enabled, k =>
    if changeable os h = some k.1 ∧ k.2 = flag then some enabled else none
  | _, _ => none

def readRegister (s : FullOs b) (k : DWORD × Register b) : DWORD_PTR b := (s.full k.1).get k.2

def readFlag (s : FullOs b) (k : DWORD × Flags) : Bool :=
  (s.full k.1).control.EFlags.getLsbD k.2.position

def flagBits : DWORD := 0xFD5

/-- What no call writes: the debug registers and the other bits of `EFlags`. -/
def readRest (s : FullOs b) (tid : DWORD) : Context b :=
  let ctx := (s.full tid).control
  { ctx with Ip := 0, EFlags := ctx.EFlags &&& ~~~flagBits }

theorem assign_rest (flag : Flags) (enabled : Bool) (EFlags : DWORD) :
    flag.assign b enabled EFlags &&& ~~~flagBits = EFlags &&& ~~~flagBits := by
  apply BitVec.eq_of_getLsbD_eq
  intro k hk
  rw [BitVec.getLsbD_and, BitVec.getLsbD_and, Flags.getLsbD_assign b flag enabled EFlags hk]
  by_cases hpos : k = flag.position
  · have hbit : (~~~flagBits).getLsbD k = false := by
      subst hpos
      cases flag <;> rfl
    rw [hbit, Bool.and_false, Bool.and_false]
  · rw [if_neg hpos]

theorem perform_sameAccess (s : FullOs b) (c : RegisterCall b) :
    SameAccess s.os (s.perform c).os := by
  cases c with
  | getRegister h reg => exact ⟨rfl, rfl⟩
  | setRegister h reg value =>
    rw [perform, setRegister_spec]
    split <;> exact ⟨rfl, rfl⟩
  | getFlag h flag => exact (getFlag_spec h flag s).2.2
  | setFlag h flag enabled => exact (setFlag_spec h flag enabled s).2

section Cells

variable (s : FullOs b) (c : RegisterCall b)

theorem perform_register (k : DWORD × Register b) :
    readRegister (s.perform c) k = (writtenRegister s.os c k).getD (readRegister s k) := by
  obtain ⟨tid, reg⟩ := k
  cases c with
  | getRegister h reg' => rfl
  | setRegister h reg' value =>
    simp only [perform, setRegister_spec, writtenRegister, readRegister]
    cases hchange : changeable s.os h with
    | none => simp
    | some u =>
      rw [full_withFull]
      by_cases hu : tid = u
      · subst hu
        rw [Function.update_self]
        by_cases hreg : reg = reg'
        · subst hreg
          rw [FullContext.get_set_self, if_pos ⟨rfl, rfl⟩, Option.getD_some]
        · rw [FullContext.get_set_of_ne _ _ hreg, if_neg (fun he => hreg he.2), Option.getD_none]
      · rw [Function.update_of_ne hu, if_neg (fun he => hu (Option.some.inj he.1).symm),
          Option.getD_none]
  | getFlag h flag =>
    rw [readRegister, perform, (getFlag_spec h flag s).2.1]
    rfl
  | setFlag h flag enabled =>
    rw [readRegister, perform, (setFlag_spec h flag enabled s).1]
    cases hchange : changeable s.os h with
    | none => rfl
    | some u =>
      by_cases hu : tid = u
      · subst hu
        simp only [Function.update_self, writtenRegister, readRegister, Option.getD_none]
        cases b <;> cases reg <;> rfl
      · simp only [Function.update_of_ne hu, writtenRegister, readRegister, Option.getD_none]

theorem perform_flag (k : DWORD × Flags) :
    readFlag (s.perform c) k = (writtenFlag s.os c k).getD (readFlag s k) := by
  obtain ⟨tid, flag⟩ := k
  cases c with
  | getRegister h reg => rfl
  | setRegister h reg value =>
    simp only [perform, setRegister_spec, writtenFlag, readFlag, Option.getD_none]
    cases hchange : changeable s.os h with
    | none => rfl
    | some u =>
      rw [full_withFull]
      by_cases hu : tid = u
      · subst hu
        rw [Function.update_self, FullContext.set_control]
      · rw [Function.update_of_ne hu]
  | getFlag h flag' =>
    rw [readFlag, perform, (getFlag_spec h flag' s).2.1]
    rfl
  | setFlag h flag' enabled =>
    rw [readFlag, perform, (setFlag_spec h flag' enabled s).1]
    simp only [writtenFlag, readFlag]
    cases hchange : changeable s.os h with
    | none => simp
    | some u =>
      dsimp only
      by_cases hu : tid = u
      · subst hu
        rw [Function.update_self, withFlag, Flags.getLsbD_assign b _ _ _ flag.position_lt]
        by_cases hflag : flag = flag'
        · rw [if_pos (congrArg _ hflag), if_pos ⟨rfl, hflag⟩, Option.getD_some]
        · rw [if_neg (fun he => hflag (Flags.position_injective he)),
            if_neg (fun he => hflag he.2), Option.getD_none]
      · rw [Function.update_of_ne hu, if_neg (fun he => hu (Option.some.inj he.1).symm),
          Option.getD_none]

theorem perform_rest (tid : DWORD) : readRest (s.perform c) tid = readRest s tid := by
  cases c with
  | getRegister h reg => rfl
  | setRegister h reg value =>
    simp only [perform, setRegister_spec, readRest]
    cases hchange : changeable s.os h with
    | none => rfl
    | some u =>
      rw [full_withFull]
      by_cases hu : tid = u
      · subst hu
        rw [Function.update_self, FullContext.set_control]
      · rw [Function.update_of_ne hu]
  | getFlag h flag =>
    rw [readRest, perform, (getFlag_spec h flag s).2.1]
    rfl
  | setFlag h flag enabled =>
    rw [readRest, perform, (setFlag_spec h flag enabled s).1]
    cases hchange : changeable s.os h with
    | none => rfl
    | some u =>
      by_cases hu : tid = u
      · subst hu
        simp only [Function.update_self, withFlag, assign_rest, readRest]
      · simp only [Function.update_of_ne hu, readRest]

end Cells

/-! ## Runs -/

/-- The open handles and the calls that the system refuses, at the moment of a call. -/
structure Access where
  handles : HandleTable
  fails : ApiCall → Bool

def under (a : Access) (s : FullOs b) : FullOs b :=
  { s with os := { s.os with handles := a.handles, fails := a.fails } }

def performUnder (s : FullOs b) (turn : Access × RegisterCall b) : FullOs b :=
  (s.under turn.1).perform turn.2

theorem writtenRegister_congr {os os' : Os b} (h : SameAccess os os') (c : RegisterCall b)
    (k : DWORD × Register b) : writtenRegister os' c k = writtenRegister os c k := by
  cases c <;> simp only [writtenRegister, h.changeable]

theorem writtenFlag_congr {os os' : Os b} (h : SameAccess os os') (c : RegisterCall b)
    (k : DWORD × Flags) : writtenFlag os' c k = writtenFlag os c k := by
  cases c <;> simp only [writtenFlag, h.changeable]

theorem under_sameAccess (a : Access) (s s' : FullOs b) :
    SameAccess (s.under a).os (s'.under a).os := ⟨rfl, rfl⟩

/-- What a call writes depends on the moment only, whatever `s` is. -/
theorem registers_written (s : FullOs b) : Writes (fun _ => True) performUnder readRegister
    (fun turn => writtenRegister (s.under turn.1).os turn.2) where
  keep _ _ _ := trivial
  read s' turn k _ := by
    rw [writtenRegister_congr (under_sameAccess turn.1 s' s)]
    exact perform_register (s'.under turn.1) turn.2 k

theorem flags_written (s : FullOs b) : Writes (fun _ => True) performUnder readFlag
    (fun turn => writtenFlag (s.under turn.1).os turn.2) where
  keep _ _ _ := trivial
  read s' turn k _ := by
    rw [writtenFlag_congr (under_sameAccess turn.1 s' s)]
    exact perform_flag (s'.under turn.1) turn.2 k

theorem foldl_rest (s : FullOs b) (turns : List (Access × RegisterCall b)) (tid : DWORD) :
    readRest (turns.foldl performUnder s) tid = readRest s tid := by
  induction turns generalizing s with
  | nil => rfl
  | cons turn turns ih =>
    rw [List.foldl_cons, ih]
    exact perform_rest (s.under turn.1) turn.2 tid

end FullOs

open FullOs in
/-- After any run of calls a register, or a flag, answers with the last value that a call
has got through to it; one that cannot be read answers -1, or false. The debug registers
and the other bits of `EFlags` are as before. -/
theorem registers_last_write (s : FullOs b) (turns : List (Access × RegisterCall b))
    (a : Access) :
    (∀ h reg, ((turns.foldl performUnder s).under a).getRegister h reg =
      match readable (s.under a).os h with
      | none => -1
      | some tid => (last (fun turn => writtenRegister (s.under turn.1).os turn.2) turns
          (tid, reg)).getD ((s.full tid).get reg)) ∧
    (∀ h flag, (((turns.foldl performUnder s).under a).getFlag h flag).1 =
      match readable (s.under a).os h with
      | none => false
      | some tid => (last (fun turn => writtenFlag (s.under turn.1).os turn.2) turns
          (tid, flag)).getD (flag.test b (s.full tid).control.EFlags)) ∧
    ∀ tid, readRest (turns.foldl performUnder s) tid = readRest s tid := by
  have hsame := under_sameAccess a s (turns.foldl performUnder s)
  refine ⟨fun h reg => ?_, fun h flag => ?_, foldl_rest s turns⟩
  · rw [getRegister_eq, hsame.readable]
    cases readable (s.under a).os h with
    | none => rfl
    | some tid => exact (registers_written s).foldl_read trivial turns (tid, reg)
  · rw [(getFlag_spec h flag _).1, hsame.readable]
    cases readable (s.under a).os h with
    | none => rfl
    | some tid =>
      simp only [Flags.test_eq]
      exact (flags_written s).foldl_read trivial turns (tid, flag)

/-! ## Suspend counts -/

namespace FullOs

def suspendCount (s : FullOs b) (tid : DWORD) : ℕ := (s.os.thread tid).suspendCount

/-- A `SuspendThread` and a `ResumeThread`, `times` times, each of them refused or not. -/
def paired (suspendFails resumeFails : Bool) (times count : ℕ) : ℕ :=
  if suspendFails = resumeFails then count
  else if suspendFails then count - times else count + times

def pairedAt (os : Os b) (tid : DWORD) (times count : ℕ) : ℕ :=
  paired (os.fails (.suspendThread tid)) (os.fails (.resumeThread tid)) times count

theorem paired_succ (f g : Bool) (times count : ℕ) :
    paired f g times (paired f g 1 count) = paired f g (times + 1) count := by
  cases f <;> cases g <;> simp only [paired] <;> simp <;> omega

theorem suspendCount_guarded {os : Os b} {call : Option (Os b)} {h : HANDLE}
    {refused : DWORD → Bool} {f : ℕ → ℕ}
    (hcall : ∀ os', call = some os' ↔ ∃ u, os.handles.lookup h = some u ∧ refused u = false ∧
      os' = os.withThread u
        { os.thread u with suspendCount := f (os.thread u).suspendCount }) (tid : DWORD) :
    ((call.getD os).thread tid).suspendCount =
      if os.handles.lookup h = some tid ∧ refused tid = false then f (os.thread tid).suspendCount
      else (os.thread tid).suspendCount := by
  cases hc : call with
  | none =>
    have hnot : ¬ (os.handles.lookup h = some tid ∧ refused tid = false) := fun hl =>
      Option.some_ne_none _ (((hcall _).mpr ⟨tid, hl.1, hl.2, rfl⟩).symm.trans hc)
    rw [Option.getD_none, if_neg hnot]
  | some os' =>
    obtain ⟨u, hlookup, hfail, rfl⟩ := (hcall os').mp hc
    simp only [Option.getD_some, hlookup, Option.some.injEq]
    by_cases hu : u = tid
    · subst hu
      rw [if_pos ⟨rfl, hfail⟩, Os.withThread_thread]
    · rw [if_neg (fun hl => hu hl.1)]
      simp only [Os.withThread, Function.update_of_ne (Ne.symm hu)]

theorem suspendCount_suspendThread (s : FullOs b) (h : HANDLE) (tid : DWORD) :
    (s.suspendThread h).suspendCount tid =
      if s.os.handles.lookup h = some tid ∧ s.os.fails (.suspendThread tid) = false then
        s.suspendCount tid + 1
      else s.suspendCount tid :=
  suspendCount_guarded (f := (· + 1))
    (fun _ => Os.suspendThread_eq_some) tid

theorem suspendCount_resumeThread (s : FullOs b) (h : HANDLE) (tid : DWORD) :
    (s.resumeThread h).suspendCount tid =
      if s.os.handles.lookup h = some tid ∧ s.os.fails (.resumeThread tid) = false then
        s.suspendCount tid - 1
      else s.suspendCount tid :=
  suspendCount_guarded (f := (· - 1))
    (fun _ => Os.resumeThread_eq_some) tid

theorem suspendCount_withFull (s : FullOs b) (tid : DWORD) (ctx : FullContext b) (u : DWORD) :
    (s.withFull tid ctx).suspendCount u = s.suspendCount u := by
  by_cases hu : u = tid
  · subst hu
    simp only [suspendCount, withFull, Os.withContext, Os.withThread_thread]
  · simp only [suspendCount, withFull, Os.withContext, Os.withThread, Function.update_of_ne hu]

theorem suspendCount_paired {s s₂ : FullOs b} (h : HANDLE) (tid : DWORD)
    (hcount : s₂.suspendCount tid = (s.suspendThread h).suspendCount tid)
    (hsame : SameAccess s.os s₂.os) :
    (s₂.resumeThread h).suspendCount tid =
      if s.os.handles.lookup h = some tid then pairedAt s.os tid 1 (s.suspendCount tid)
      else s.suspendCount tid := by
  rw [suspendCount_resumeThread, hcount, suspendCount_suspendThread, hsame.1, hsame.2]
  by_cases hl : s.os.handles.lookup h = some tid
  · simp only [hl, true_and, if_true, pairedAt]
    cases s.os.fails (.suspendThread tid) <;> cases s.os.fails (.resumeThread tid) <;>
      simp [paired]
  · simp only [hl, false_and, if_false]

/-- A call of `getFlag` or `setFlag` through a handle of the thread. -/
def pairsAt (os : Os b) (tid : DWORD) : RegisterCall b → Bool
  | .getFlag h _ => os.handles.lookup h = some tid
  | .setFlag h _ _ => os.handles.lookup h = some tid
  | _ => false

theorem suspendCount_getFlag (s : FullOs b) (h : HANDLE) (flag : Flags) (tid : DWORD) :
    (s.getFlag h flag).2.suspendCount tid =
      if s.os.handles.lookup h = some tid then pairedAt s.os tid 1 (s.suspendCount tid)
      else s.suspendCount tid := by
  have hstate : (s.getFlag h flag).2 = (s.suspendThread h).resumeThread h := by
    unfold getFlag
    dsimp only
    split <;> rfl
  rw [hstate]
  exact suspendCount_paired h tid rfl (suspendThread_spec s h).2

theorem suspendCount_setFlag (s : FullOs b) (h : HANDLE) (flag : Flags) (enabled : Bool)
    (tid : DWORD) :
    (s.setFlag h flag enabled).suspendCount tid =
      if s.os.handles.lookup h = some tid then pairedAt s.os tid 1 (s.suspendCount tid)
      else s.suspendCount tid := by
  have hsame := (suspendThread_spec s h).2
  simp only [setFlag, getThreadContext_eq]
  cases hread : readable (s.suspendThread h).os h with
  | none => exact suspendCount_paired h tid rfl hsame
  | some u =>
    simp only [Option.map_some, setThreadContext_getD _ _ hread]
    cases changeable (s.suspendThread h).os h with
    | none => exact suspendCount_paired h tid rfl hsame
    | some u => exact suspendCount_paired h tid (suspendCount_withFull _ u _ tid) hsame

theorem suspendCount_perform (s : FullOs b) (c : RegisterCall b) (tid : DWORD) :
    (s.perform c).suspendCount tid =
      if pairsAt s.os tid c then pairedAt s.os tid 1 (s.suspendCount tid)
      else s.suspendCount tid := by
  cases c with
  | getRegister h reg => rfl
  | setRegister h reg value =>
    rw [perform, setRegister_spec]
    cases changeable s.os h with
    | none => rfl
    | some u => exact suspendCount_withFull s u _ tid
  | getFlag h flag => simp only [perform, suspendCount_getFlag, pairsAt, decide_eq_true_eq]
  | setFlag h flag enabled => simp only [perform, suspendCount_setFlag, pairsAt, decide_eq_true_eq]

theorem SameAccess.pairsAt {os os' : Os b} (h : SameAccess os os') (tid : DWORD)
    (c : RegisterCall b) : pairsAt os' tid c = FullOs.pairsAt os tid c := by
  cases c <;> simp only [FullOs.pairsAt, h.1]

theorem paired_zero (f g : Bool) (count : ℕ) : paired f g 0 count = count := by
  cases f <;> cases g <;> rfl

/-- The count after a call at its moment; a thread that is suspended as often as the system
allows is one that it refuses to suspend at that moment. -/
def countAfter (s : FullOs b) (tid : DWORD) (count : ℕ) (turn : Access × RegisterCall b) : ℕ :=
  if pairsAt (s.under turn.1).os tid turn.2 then pairedAt (s.under turn.1).os tid 1 count
  else count

theorem countAfter_congr {s s' : FullOs b} (tid : DWORD) : countAfter s' tid = countAfter s tid := by
  funext count turn
  have hsame := under_sameAccess turn.1 s s'
  simp only [countAfter, hsame.pairsAt, pairedAt, hsame.2]

theorem foldl_suspendCount (s : FullOs b) (turns : List (Access × RegisterCall b)) (tid : DWORD) :
    (turns.foldl performUnder s).suspendCount tid =
      turns.foldl (countAfter s tid) (s.suspendCount tid) := by
  induction turns generalizing s with
  | nil => rfl
  | cons turn turns ih =>
    have hcall : (s.performUnder turn).suspendCount tid =
        countAfter s tid (s.suspendCount tid) turn :=
      suspendCount_perform (s.under turn.1) turn.2 tid
    rw [List.foldl_cons, List.foldl_cons, ih, hcall, countAfter_congr]

def access (s : FullOs b) : Access := ⟨s.os.handles, s.os.fails⟩

theorem countAfter_access (s : FullOs b) (tid : DWORD) (count : ℕ) (c : RegisterCall b) :
    countAfter s tid count (s.access, c) =
      if pairsAt s.os tid c then pairedAt s.os tid 1 count else count := rfl

/-- Calls under one access move the count all in the same direction. -/
theorem foldl_countAfter (s : FullOs b) (calls : List (RegisterCall b)) (tid : DWORD)
    (count : ℕ) : (calls.map (s.access, ·)).foldl (countAfter s tid) count =
      pairedAt s.os tid (calls.countP (pairsAt s.os tid)) count := by
  induction calls generalizing count with
  | nil => exact (paired_zero _ _ _).symm
  | cons c calls ih =>
    rw [List.map_cons, List.foldl_cons, ih, List.countP_cons, countAfter_access]
    by_cases hpair : pairsAt s.os tid c = true
    · rw [if_pos hpair, if_pos hpair]
      exact paired_succ _ _ _ _
    · rw [if_neg hpair, if_neg hpair, Nat.add_zero]

/-- A run under one access is a run of calls alone. -/
theorem foldl_performUnder (s : FullOs b) (calls : List (RegisterCall b)) :
    (calls.map (s.access, ·)).foldl performUnder s = calls.foldl perform s := by
  induction calls generalizing s with
  | nil => rfl
  | cons c calls ih =>
    have haccess : (s.perform c).access = s.access := by
      rw [access, (perform_sameAccess s c).1, (perform_sameAccess s c).2, access]
    have hcall : s.performUnder (s.access, c) = s.perform c := rfl
    rw [List.map_cons, List.foldl_cons, List.foldl_cons, hcall, ← ih (s.perform c), haccess]

end FullOs

open FullOs in
/-- After any run of calls the suspend count of a thread is what each call has made of it at
its moment. As long as the system refuses the same calls it is as it was, or has moved by
the number of flag calls that have reached the thread if the system refuses to suspend it
or refuses to resume it, but not both. -/
theorem suspendCount_flags (s : FullOs b) (tid : DWORD) :
    (∀ turns : List (Access × RegisterCall b), (turns.foldl performUnder s).suspendCount tid =
      turns.foldl (countAfter s tid) (s.suspendCount tid)) ∧
    ∀ calls : List (RegisterCall b), (calls.foldl perform s).suspendCount tid =
      pairedAt s.os tid (calls.countP (pairsAt s.os tid)) (s.suspendCount tid) := by
  refine ⟨fun turns => foldl_suspendCount s turns tid, fun calls => ?_⟩
  rw [← foldl_performUnder, foldl_suspendCount, foldl_countAfter]

end RoboDbg
