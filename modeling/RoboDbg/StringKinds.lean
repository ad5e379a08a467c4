import RoboDbg.Foundation.Terminated
import RoboDbg.Notifications

/-!
# ANSI and Unicode strings

A string of the debuggee is one of bytes or one of `wchar_t`s, and an event says which. A
debug string of either kind is cut to 1023 characters, but only that of `wchar_t`s is
reported with its terminator.
-/

namespace RoboDbg

open Terminated

variable {b : Build}

/-! ## The two layouts -/

/-- Without NUL, and each character one byte in every code page. -/
def Ascii (s : Text) : Prop := ∀ x ∈ s, x ≠ 0 ∧ x.toNat < 128

instance (s : Text) : Decidable (Ascii s) := inferInstanceAs (Decidable (∀ x ∈ s, _))

def widen (s : Text) : List WORD := s.map (fun x => x.setWidth 16)

def TextServices.KeepsAscii (text : TextServices) (codePage : CodePage) : Prop :=
  ∀ s, Ascii s → text.wideCharToMultiByte codePage (widen s) = s

def charSize (isUnicode : WORD) : ℕ := if isUnicode = 0 then 1 else 2

namespace Memory

def CanRead (m : Memory b) (p : LPVOID b) (n : ℕ) : Prop :=
  ∀ k < n, m.readable (p + BitVec.ofNat _ k) = true

def wideView (m : Memory b) (p : LPVOID b) (n : ℕ) : List WORD := wideChars (m.view p (n * 2))

def HasText (m : Memory b) (p : LPVOID b) (isUnicode : WORD) (s : Text) : Prop :=
  if isUnicode = 0 then m.view p (s.length + 1) = s ++ [0]
  else m.wideView p (s.length + 1) = widen s ++ [0]

instance (m : Memory b) (p : LPVOID b) (isUnicode : WORD) (s : Text) :
    Decidable (m.HasText p isUnicode s) :=
  inferInstanceAs (Decidable (if isUnicode = 0 then m.view p (s.length + 1) = s ++ [0]
    else m.wideView p (s.length + 1) = widen s ++ [0]))

end Memory

theorem charSize_ansi {isUnicode : WORD} (h : isUnicode = 0) : charSize isUnicode = 1 := if_pos h

theorem charSize_unicode {isUnicode : WORD} (h : isUnicode ≠ 0) : charSize isUnicode = 2 :=
  if_neg h

theorem Ascii.zero_notMem {s : Text} (h : Ascii s) : 0 ∉ s := fun hmem => (h 0 hmem).1 rfl

theorem Ascii.take {s : Text} (h : Ascii s) (n : ℕ) : Ascii (s.take n) :=
  fun x hx => h x (List.mem_of_mem_take hx)

theorem Ascii.zero_notMem_widen {s : Text} (h : Ascii s) : 0 ∉ widen s := by
  intro hmem
  obtain ⟨x, hx, hzero⟩ := List.mem_map.mp hmem
  refine (h x hx).1 (BitVec.eq_of_toNat_eq ?_)
  have hnat := congrArg BitVec.toNat hzero
  rwa [BitVec.toNat_setWidth_of_le (by decide)] at hnat

theorem widen_take (s : Text) (n : ℕ) : (widen s).take n = widen (s.take n) :=
  (List.map_take ..).symm

@[simp] theorem length_widen (s : Text) : (widen s).length = s.length := List.length_map _

theorem TextServices.ascii_keepsAscii (codePage : CodePage) :
    TextServices.ascii.KeepsAscii codePage := by
  intro s _
  change (s.map (fun x => x.setWidth 16)).map (fun x => x.setWidth 8) = s
  rw [List.map_map]
  refine (List.map_congr_left (fun x _ => ?_)).trans (List.map_id s)
  exact BitVec.setWidth_setWidth_of_le x (by decide)

theorem wideChars_take (xs : List BYTE) (n : ℕ) :
    wideChars (xs.take (n * 2)) = (wideChars xs).take n := by
  induction n generalizing xs with
  | zero =>
    rw [Nat.zero_mul, List.take_zero, List.take_zero]
    rfl
  | succ n ih =>
    rw [Nat.succ_mul]
    match xs with
    | [] => rfl
    | [x] => rfl
    | lo :: hi :: xs =>
      simp only [List.take_succ_cons, wideChars, ih]

theorem length_wideChars (xs : List BYTE) : (wideChars xs).length = xs.length / 2 := by
  fun_induction wideChars xs with
  | case1 lo hi xs ih =>
    rw [List.length_cons, ih, List.length_cons, List.length_cons]
    omega
  | case2 xs hshort =>
    match xs with
    | [] => rfl
    | [x] => simp
    | lo :: hi :: xs => exact absurd rfl (hshort lo hi xs)

namespace Memory

variable {m : Memory b} {p : LPVOID b} {n k : ℕ}

theorem length_wideView (m : Memory b) (p : LPVOID b) (n : ℕ) : (m.wideView p n).length = n := by
  rw [wideView, length_wideChars, length_view, Nat.mul_div_cancel _ (by decide)]

theorem wideView_min (m : Memory b) (p : LPVOID b) (n k : ℕ) :
    m.wideView p (min n k) = (m.wideView p n).take k := by
  rw [wideView, wideView, ← Nat.mul_min_mul_right, view_min, wideChars_take]

theorem take_wideView (m : Memory b) (p : LPVOID b) (h : k ≤ n) :
    (m.wideView p n).take k = m.wideView p k := by
  rw [← wideView_min, Nat.min_eq_right h]

theorem CanRead.eq_some (h : m.CanRead p n) : m.readProcessMemory p n = some (m.view p n) :=
  readProcessMemory_eq h

theorem readProcessMemory_eq_none (h : ¬ m.CanRead p n) : m.readProcessMemory p n = none := by
  cases hread : m.readProcessMemory p n with
  | none => rfl
  | some xs => exact absurd (readProcessMemory_eq_some.mp hread).1 h

end Memory

/-! ## Debug strings -/

namespace Debugger

/-- An event for a debug string `s`: `nDebugStringLength` counts its terminator, and what
the event asks for can be read. -/
structure Carries (d : Debugger b) (p : LPVOID b) (fUnicode nDebugStringLength : WORD)
    (s : Text) : Prop where
  ascii : Ascii s
  length : nDebugStringLength.toNat = s.length + 1
  text : d.os.memory.HasText p fUnicode s
  reads : d.os.memory.CanRead p (min nDebugStringLength.toNat 1023 * charSize fUnicode)

def debugStringCalls (cb : Callbacks b) (d : Debugger b) (p : LPVOID b)
    (fUnicode nDebugStringLength : WORD) : List (Call b) :=
  newCalls d (d.handleEvent cb (.OUTPUT_DEBUG_STRING p fUnicode nDebugStringLength)).1

theorem debugStringCalls_eq (cb : Callbacks b) (d : Debugger b) (p : LPVOID b)
    (fUnicode nDebugStringLength : WORD) :
    debugStringCalls cb d p fUnicode nDebugStringLength =
      [.onDebugString (Util.getDebugString d.os p fUnicode nDebugStringLength)] :=
  newCalls_call _

variable {d : Debugger b} {p : LPVOID b} {fUnicode nDebugStringLength : WORD} {s : Text}

/-- The read of an ANSI string fills the buffer with the characters that fit. -/
theorem Carries.ansi (h : d.Carries p 0 nDebugStringLength s) :
    Util.getDebugString d.os p 0 nDebugStringLength = s.take 1023 := by
  have htext : d.os.memory.view p (s.length + 1) = s ++ [0] := h.text
  have hreads : d.os.memory.CanRead p (min nDebugStringLength.toNat 1023) := by
    have hreads := h.reads
    rwa [charSize_ansi rfl, Nat.mul_one] at hreads
  have hbuffer : d.os.memory.readProcessMemory p (min nDebugStringLength.toNat 1023) =
      some ((s ++ [0]).take 1023) := by
    rw [hreads.eq_some, Memory.view_min, h.length, htext]
  simp only [Util.getDebugString, if_true, hbuffer, Option.getD_some]
  rw [cString_of_mem (by simp)]
  exact takeWhile_cut h.ascii.zero_notMem 1023

/-- The string that the conversion counts and writes has the terminator in it. -/
theorem Carries.unicode (h : d.Carries p fUnicode nDebugStringLength s) (hunicode : fUnicode ≠ 0)
    (htext : d.os.text.KeepsAscii .UTF8) :
    Util.getDebugString d.os p fUnicode nDebugStringLength = s.take 1023 ++ [0] := by
  have hchars : d.os.memory.wideView p (s.length + 1) = widen s ++ [0] :=
    (if_neg hunicode).mp h.text
  have hreads : d.os.memory.CanRead p (min (nDebugStringLength.toNat * 2) 2046) := by
    have hreads := h.reads
    rwa [charSize_unicode hunicode, ← Nat.mul_min_mul_right] at hreads
  have hbuffer : wideChars ((d.os.memory.readProcessMemory p
      (min (nDebugStringLength.toNat * 2) 2046)).getD []) = (widen s ++ [0]).take 1023 := by
    rw [← hchars, ← h.length, ← Memory.wideView_min, Memory.wideView, ← Nat.mul_min_mul_right,
      hreads.eq_some]
    rfl
  simp only [Util.getDebugString, if_neg hunicode, hbuffer]
  rw [cString_of_mem (by simp), takeWhile_cut h.ascii.zero_notMem_widen, widen_take,
    htext _ (h.ascii.take 1023)]

/-- Two events are reported with one and the same text, which is `s` as far as the buffers
go. -/
def ReportedAlike (s : Text) (calls calls' : List (Call b)) : Prop :=
  ∃ msg, calls = [.onDebugString msg] ∧ calls' = [.onDebugString msg] ∧ msg = s.take 1023

end Debugger

open Debugger

variable {cb : Callbacks b} {d d' : Debugger b} {p q : LPVOID b}
  {fUnicode nDebugStringLength : WORD} {s : Text}

/-- A text is never reported alike as ANSI and as Unicode: only the ANSI one is the text as
far as the buffer goes, the other one has a NUL behind it. -/
theorem debugStrings_differ (hansi : d.Carries p 0 nDebugStringLength s)
    (hwide : d'.Carries q fUnicode nDebugStringLength s) (hunicode : fUnicode ≠ 0)
    (htext : d'.os.text.KeepsAscii .UTF8) :
    let calls := debugStringCalls cb d p 0 nDebugStringLength
    let calls' := debugStringCalls cb d' q fUnicode nDebugStringLength
    calls = [.onDebugString (s.take 1023)] ∧ calls' = [.onDebugString (s.take 1023 ++ [0])] ∧
      ¬ ReportedAlike s calls calls' := by
  intro calls calls'
  have hcalls : calls = [.onDebugString (s.take 1023)] := by
    rw [← hansi.ansi]
    exact debugStringCalls_eq cb d p 0 nDebugStringLength
  have hcalls' : calls' = [.onDebugString (s.take 1023 ++ [0])] := by
    rw [← hwide.unicode hunicode htext]
    exact debugStringCalls_eq cb d' q fUnicode nDebugStringLength
  refine ⟨hcalls, hcalls', ?_⟩
  rintro ⟨msg, -, hmsg, rfl⟩
  rw [hcalls', List.singleton_inj, Call.onDebugString.injEq] at hmsg
  simp at hmsg

/-- `ok` stands at `0x1000` in bytes and at `0x2000` in `wchar_t`s. -/
def twoStrings : Debugger .x64 :=
  new (.ofCode (fun a =>
    if a = 0x1000 ∨ a = 0x2000 then 0x6F else if a = 0x1001 ∨ a = 0x2002 then 0x6B else 0) [])

theorem twoStrings_ansi : twoStrings.Carries 0x1000 0 3 (literal "ok") where
  ascii := by decide
  length := rfl
  text := by decide
  reads := fun _ _ => rfl

theorem twoStrings_unicode : twoStrings.Carries 0x2000 1 3 (literal "ok") where
  ascii := by decide
  length := rfl
  text := by decide
  reads := fun _ _ => rfl

theorem debugStrings_differ_ok :
    let cb : Callbacks .x64 := answering (fun _ _ => .BREAK)
    let calls := debugStringCalls cb twoStrings 0x1000 0 3
    let calls' := debugStringCalls cb twoStrings 0x2000 1 3
    calls = [.onDebugString ((literal "ok").take 1023)] ∧
      calls' = [.onDebugString ((literal "ok").take 1023 ++ [0])] ∧
      ¬ ReportedAlike (literal "ok") calls calls' :=
  debugStrings_differ twoStrings_ansi twoStrings_unicode (by decide)
    (TextServices.ascii_keepsAscii .UTF8)

theorem debugString_keeps_terminator :
    let cb : Callbacks .x64 := answering (fun _ _ => .BREAK)
    twoStrings.Carries 0x1000 0 3 (literal "ok") ∧ twoStrings.Carries 0x2000 1 3 (literal "ok") ∧
      ¬ ReportedAlike (literal "ok") (debugStringCalls cb twoStrings 0x1000 0 3)
        (debugStringCalls cb twoStrings 0x2000 1 3) := by
  intro cb
  refine ⟨twoStrings_ansi, twoStrings_unicode, ?_⟩
  rintro ⟨msg, hansi, hunicode, -⟩
  have hsame := hansi.trans hunicode.symm
  rw [debugStringCalls_eq, debugStringCalls_eq, List.singleton_inj, Call.onDebugString.injEq]
    at hsame
  revert hsame
  decide

end RoboDbg
