import RoboDbg.StringKinds

/-!
# The buffers of `getDllName`

`getDllName` asks for `MAX_PATH` characters however short the name is, and looks for the end
of the name in its buffers without a bound. So a name can be lost that lies before the end
of readable memory, and the search can leave a buffer.
-/

namespace RoboDbg

open Terminated

variable {b : Build}

/-! ## The searches for a terminator -/

/-- A local buffer as far as it has been written. -/
inductive LocalBuffer
  | wbuffer (xs : List WORD)
  | buffer (xs : List BYTE)

namespace LocalBuffer

def length : LocalBuffer → ℕ
  | wbuffer xs => xs.length
  | buffer xs => xs.length

/-- The search for the terminator reads only what has been written. -/
def Safe : LocalBuffer → Prop
  | wbuffer xs => Within 0 xs
  | buffer xs => Within 0 xs

end LocalBuffer

/-- The buffers in which `getDllName` looks for a terminator: `WideCharToMultiByte` in
`wbuffer`, the assignment to `name` in `buffer`. -/
def Util.getDllNameSearches (os : Os b) (lpImageName : LPVOID b) (isUnicode : WORD) :
    List LocalBuffer :=
  if lpImageName = 0 then []
  else
    match os.memory.readProcessMemory lpImageName (Pod.size (LPVOID b)) with
    | none => []
    | some bytes =>
      let actualStringPtr : LPVOID b := Pod.ofBytes bytes
      if actualStringPtr = 0 then []
      else if isUnicode ≠ 0 then
        match os.memory.readProcessMemory actualStringPtr (MAX_PATH * 2) with
        | none => []
        | some wbuffer =>
          let name := os.text.wideCharToMultiByte .ACP
            (cString (wideChars wbuffer) os.text.beyondWide)
          -- a conversion that fails guarantees nothing about `buffer`
          [.wbuffer (wideChars wbuffer),
            .buffer (if name.length < MAX_PATH then name ++ [0] else [])]
      else
        match os.memory.readProcessMemory actualStringPtr MAX_PATH with
        | none => []
        | some buffer => [.buffer buffer]

/-- No search leaves its buffer or reads what is not initialised. -/
def SafeName (os : Os b) (lpImageName : LPVOID b) (isUnicode : WORD) : Prop :=
  ∀ x ∈ Util.getDllNameSearches os lpImageName isUnicode, x.Safe

/-- A name shorter than the buffers that can be read up to its terminator. -/
structure Memory.HasName (m : Memory b) (p : LPVOID b) (isUnicode : WORD) (s : Text) : Prop where
  ascii : Ascii s
  short : s.length < MAX_PATH
  text : m.HasText p isUnicode s
  reads : m.CanRead p ((s.length + 1) * charSize isUnicode)

def CompleteName (os : Os b) (lpImageName : LPVOID b) (isUnicode : WORD) : Prop :=
  ∀ p s, os.memory.PointsTo lpImageName p → p ≠ 0 → os.memory.HasName p isUnicode s →
    Util.getDllName os lpImageName isUnicode = s

/-! ## What a name needs -/

/-- As many characters as the buffers have room for can be read. -/
def Memory.CanFill (m : Memory b) (p : LPVOID b) (isUnicode : WORD) : Prop :=
  m.CanRead p (MAX_PATH * charSize isUnicode)

/-- A NUL is among the characters, and those before it have room in the buffer for the
converted name. -/
def FitsBuffers (os : Os b) (p : LPVOID b) (isUnicode : WORD) : Prop :=
  if isUnicode = 0 then 0 ∈ os.memory.view p MAX_PATH
  else 0 ∈ os.memory.wideView p MAX_PATH ∧
    (os.text.wideCharToMultiByte .ACP
      ((os.memory.wideView p MAX_PATH).takeWhile (· ≠ 0))).length < MAX_PATH

def readErrorText (isUnicode : WORD) : Text :=
  if isUnicode = 0 then literal "<ansi read error>" else literal "<unicode read error>"

section Pointer

variable {os : Os b} {lpImageName p : LPVOID b} {isUnicode : WORD} {s : Text}

theorem Memory.canFill_ansi {m : Memory b} (h : isUnicode = 0) :
    m.CanFill p isUnicode ↔ m.CanRead p MAX_PATH := by
  rw [CanFill, charSize_ansi h, Nat.mul_one]

theorem Memory.canFill_unicode {m : Memory b} (h : isUnicode ≠ 0) :
    m.CanFill p isUnicode ↔ m.CanRead p (MAX_PATH * 2) := by
  rw [CanFill, charSize_unicode h]

theorem Memory.PointsTo.unique {m : Memory b} {q : LPVOID b} (h : m.PointsTo lpImageName p)
    (h' : m.PointsTo lpImageName q) : p = q := by
  obtain ⟨-, bytes, hread, rfl⟩ := h
  obtain ⟨-, bytes', hread', rfl⟩ := h'
  rw [hread, Option.some_inj] at hread'
  rw [hread']

theorem searches_of_not_pointsTo (h : ∀ p ≠ 0, ¬ os.memory.PointsTo lpImageName p) :
    Util.getDllNameSearches os lpImageName isUnicode = [] := by
  unfold Util.getDllNameSearches
  by_cases hnull : lpImageName = 0
  · rw [if_pos hnull]
  rw [if_neg hnull]
  cases hread : os.memory.readProcessMemory lpImageName (Pod.size (LPVOID b)) with
  | none => rfl
  | some bytes =>
    have hp : (Pod.ofBytes bytes : LPVOID b) = 0 := by
      by_contra hp
      exact h _ hp ⟨hnull, bytes, hread, rfl⟩
    simp only [hp, if_true]

variable (hpoints : os.memory.PointsTo lpImageName p) (hp : p ≠ 0)
include hpoints hp

theorem searches_ansi (hansi : isUnicode = 0) :
    Util.getDllNameSearches os lpImageName isUnicode =
      match os.memory.readProcessMemory p MAX_PATH with
      | none => []
      | some buffer => [.buffer buffer] := by
  obtain ⟨hne, bytes, hread, rfl⟩ := hpoints
  simp only [Util.getDllNameSearches, if_neg hne, hread, if_neg hp, hansi, ne_eq,
    not_true_eq_false, if_false]

theorem searches_unicode (hunicode : isUnicode ≠ 0) :
    Util.getDllNameSearches os lpImageName isUnicode =
      match os.memory.readProcessMemory p (MAX_PATH * 2) with
      | none => []
      | some wbuffer =>
        let name := os.text.wideCharToMultiByte .ACP
          (cString (wideChars wbuffer) os.text.beyondWide)
        [.wbuffer (wideChars wbuffer),
          .buffer (if name.length < MAX_PATH then name ++ [0] else [])] := by
  obtain ⟨hne, bytes, hread, rfl⟩ := hpoints
  simp only [Util.getDllNameSearches, if_neg hne, hread, if_neg hp, if_pos hunicode]

theorem safeName_iff :
    SafeName os lpImageName isUnicode ↔
      (os.memory.CanFill p isUnicode → FitsBuffers os p isUnicode) := by
  unfold SafeName FitsBuffers
  by_cases hansi : isUnicode = 0
  · rw [searches_ansi hpoints hp hansi, if_pos hansi, Memory.canFill_ansi hansi]
    by_cases hfill : os.memory.CanRead p MAX_PATH
    · rw [hfill.eq_some]
      simp [LocalBuffer.Safe, within_iff, hfill]
    · rw [Memory.readProcessMemory_eq_none hfill]
      simp [hfill]
  · rw [searches_unicode hpoints hp hansi, if_neg hansi, Memory.canFill_unicode hansi]
    by_cases hfill : os.memory.CanRead p (MAX_PATH * 2)
    · rw [hfill.eq_some]
      simp only [List.forall_mem_cons, List.not_mem_nil, LocalBuffer.Safe, within_iff, hfill,
        true_imp_iff, false_imp_iff, implies_true, and_true]
      refine and_congr_right (fun hnul => ?_)
      rw [cString_of_mem hnul, Memory.wideView]
      split_ifs with hfits
      · exact iff_of_true (by simp) hfits
      · exact iff_of_false List.not_mem_nil hfits
    · rw [Memory.readProcessMemory_eq_none hfill]
      simp [hfill]

theorem getDllName_of_not_canFill (hlost : ¬ os.memory.CanFill p isUnicode) :
    Util.getDllName os lpImageName isUnicode = readErrorText isUnicode := by
  by_cases hansi : isUnicode = 0
  · rw [Memory.canFill_ansi hansi] at hlost
    rw [readErrorText, if_pos hansi]
    exact getDllName_eq (.ansiError hpoints hp hansi (Memory.readProcessMemory_eq_none hlost))
  · rw [Memory.canFill_unicode hansi] at hlost
    rw [readErrorText, if_neg hansi]
    exact getDllName_eq (.unicodeError hpoints hp hansi (Memory.readProcessMemory_eq_none hlost))

theorem getDllName_of_hasName (htext : os.text.KeepsAscii .ACP)
    (hfill : os.memory.CanFill p isUnicode) (hs : os.memory.HasName p isUnicode s) :
    Util.getDllName os lpImageName isUnicode = s := by
  have hholds := hs.text
  have hshort : s.length + 1 ≤ MAX_PATH := hs.short
  by_cases hansi : isUnicode = 0
  · rw [Memory.canFill_ansi hansi] at hfill
    rw [Memory.HasText, if_pos hansi, ← Memory.take_view _ _ hshort] at hholds
    rw [getDllName_eq (.ansi hpoints hp hansi hfill.eq_some),
      cString_of_mem (mem_of_take hholds)]
    exact takeWhile_of_take hs.ascii.zero_notMem hholds
  · rw [Memory.canFill_unicode hansi] at hfill
    rw [Memory.HasText, if_neg hansi, ← Memory.take_wideView _ _ hshort, ← length_widen s]
      at hholds
    have hchars : cString (os.memory.wideView p MAX_PATH) os.text.beyondWide = widen s := by
      rw [cString_of_mem (mem_of_take hholds)]
      exact takeWhile_of_take hs.ascii.zero_notMem_widen hholds
    have hname : s = os.text.wideCharToMultiByte .ACP
        (cString (os.memory.wideView p MAX_PATH) os.text.beyondWide) := by
      rw [hchars, htext s hs.ascii]
    rw [getDllName_eq (.unicode hpoints hp hansi hfill.eq_some hname hs.short),
      cString_of_mem (by simp)]
    exact takeWhile_terminated hs.ascii.zero_notMem []

theorem completeName_iff (htext : os.text.KeepsAscii .ACP) :
    CompleteName os lpImageName isUnicode ↔ (¬ os.memory.CanFill p isUnicode →
      ∀ s, os.memory.HasName p isUnicode s → s = readErrorText isUnicode) := by
  constructor
  · intro h hlost s hs
    rw [← getDllName_of_not_canFill hpoints hp hlost, h p s hpoints hp hs]
  · intro h q s hpoints' hq hs
    obtain rfl := hpoints.unique hpoints'
    by_cases hfill : os.memory.CanFill p isUnicode
    · exact getDllName_of_hasName hpoints hp htext hfill hs
    · rw [getDllName_of_not_canFill hpoints hp hfill, h hfill s hs]

end Pointer

theorem length_le_of_mem_searches {os : Os b} {lpImageName : LPVOID b} {isUnicode : WORD} :
    ∀ x ∈ Util.getDllNameSearches os lpImageName isUnicode, x.length ≤ MAX_PATH := by
  by_cases hpointer : ∃ p, os.memory.PointsTo lpImageName p ∧ p ≠ 0
  · obtain ⟨p, hpoints, hp⟩ := hpointer
    by_cases hansi : isUnicode = 0
    · rw [searches_ansi hpoints hp hansi]
      cases hread : os.memory.readProcessMemory p MAX_PATH with
      | none => simp
      | some buffer =>
        obtain ⟨-, rfl⟩ := Memory.readProcessMemory_eq_some.mp hread
        simp [LocalBuffer.length]
    · rw [searches_unicode hpoints hp hansi]
      cases hread : os.memory.readProcessMemory p (MAX_PATH * 2) with
      | none => simp
      | some wbuffer =>
        obtain ⟨-, rfl⟩ := Memory.readProcessMemory_eq_some.mp hread
        simp only [List.forall_mem_cons, List.not_mem_nil, LocalBuffer.length, false_imp_iff,
          implies_true, and_true]
        refine ⟨(Memory.length_wideView os.memory p MAX_PATH).le, ?_⟩
        split_ifs with hfits
        · rw [List.length_append]
          exact hfits
        · exact Nat.zero_le _
  · rw [searches_of_not_pointsTo (fun p hp hpoints => hpointer ⟨p, hpoints, hp⟩)]
    simp

/-- A search that stays inside does not depend on what lies behind the buffers, nor on what a
failed conversion leaves. -/
theorem SafeName.congr {os : Os b} {lpImageName : LPVOID b} {isUnicode : WORD}
    (h : SafeName os lpImageName isUnicode) (beyond unconverted : Text) (beyondWide : List WORD) :
    Util.getDllName
      { os with text := ⟨os.text.wideCharToMultiByte, beyond, beyondWide, unconverted⟩ }
      lpImageName isUnicode = Util.getDllName os lpImageName isUnicode := by
  unfold SafeName at h
  have hname := nameAt_getDllName os lpImageName isUnicode
  generalize Util.getDllName os lpImageName isUnicode = name at hname ⊢
  cases hname with
  | unknown hnull => exact getDllName_eq (.unknown hnull)
  | readError hne hread => exact getDllName_eq (.readError hne hread)
  | nullPointer hpoints => exact getDllName_eq (.nullPointer hpoints)
  | unicodeError hpoints hp hunicode hread =>
    exact getDllName_eq (.unicodeError hpoints hp hunicode hread)
  | ansiError hpoints hp hansi hread => exact getDllName_eq (.ansiError hpoints hp hansi hread)
  | unicode hpoints hp hunicode hread hname hfits =>
    rw [searches_unicode hpoints hp hunicode, hread] at h
    have hnul := within_iff.mp (h _ List.mem_cons_self)
    rw [cString_of_mem hnul] at hname
    refine getDllName_eq (.unicode hpoints hp hunicode hread ?_ hfits)
    rw [hname, cString_of_mem hnul]
  | @unconverted p wbuffer hpoints hp hunicode hread hlong =>
    rw [searches_unicode hpoints hp hunicode, hread] at h
    have hnul := within_iff.mp (h _ (List.mem_cons_of_mem _ List.mem_cons_self))
    rw [if_neg (Nat.not_lt.mpr hlong)] at hnul
    cases hnul
  | @ansi p buffer hpoints hp hansi hread =>
    rw [searches_ansi hpoints hp hansi, hread] at h
    have hnul := within_iff.mp (h _ List.mem_cons_self)
    have hbehind : cString buffer os.text.beyond = cString buffer beyond := by
      rw [cString_of_mem hnul, cString_of_mem hnul]
    rw [hbehind]
    exact getDllName_eq (.ansi hpoints hp hansi hread)

/-- A name is read safely and completely exactly if all characters that the buffers have
room for can be read and the name fits in them, or no name that could be read is lost. What
is read safely does not depend on anything but the characters written. -/
theorem getDllName_safe_complete_iff {os : Os b} (htext : os.text.KeepsAscii .ACP)
    (lpImageName : LPVOID b) (isUnicode : WORD) :
    (SafeName os lpImageName isUnicode → ∀ beyond unconverted beyondWide, Util.getDllName
        { os with text := ⟨os.text.wideCharToMultiByte, beyond, beyondWide, unconverted⟩ }
        lpImageName isUnicode = Util.getDllName os lpImageName isUnicode) ∧
      (SafeName os lpImageName isUnicode ∧ CompleteName os lpImageName isUnicode ↔
        ∀ p, os.memory.PointsTo lpImageName p → p ≠ 0 →
          (os.memory.CanFill p isUnicode → FitsBuffers os p isUnicode) ∧
          (¬ os.memory.CanFill p isUnicode →
            ∀ s, os.memory.HasName p isUnicode s → s = readErrorText isUnicode)) := by
  refine ⟨SafeName.congr, ?_⟩
  constructor
  · rintro ⟨hsafe, hcomplete⟩ p hpoints hp
    exact ⟨(safeName_iff hpoints hp).mp hsafe, (completeName_iff hpoints hp htext).mp hcomplete⟩
  · intro h
    by_cases hpointer : ∃ p, os.memory.PointsTo lpImageName p ∧ p ≠ 0
    · obtain ⟨p, hpoints, hp⟩ := hpointer
      obtain ⟨hsafe, hcomplete⟩ := h p hpoints hp
      exact ⟨(safeName_iff hpoints hp).mpr hsafe, (completeName_iff hpoints hp htext).mpr hcomplete⟩
    · have hnone : ∀ p ≠ 0, ¬ os.memory.PointsTo lpImageName p :=
        fun p hp hpoints => hpointer ⟨p, hpoints, hp⟩
      refine ⟨?_, fun p s hpoints hp _ => absurd hpoints (hnone p hp)⟩
      unfold SafeName
      rw [searches_of_not_pointsTo hnone]
      simp

/-- `ntdll.dll` stands at the end of a page, and a pointer to it at the beginning. -/
def endsPage (readable : LPVOID .x64 → Bool) : Os .x64 :=
  { Os.ofCode (fun _ => 0) [] with
    memory :=
      { bytes := fun a =>
          if a = 0x10000 then 0xF6 else if a = 0x10001 then 0x0F else if a = 0x10002 then 0x01
          else (literal "ntdll.dll").getD (a - 0x10FF6).toNat 0
        writer := fun _ => .debuggee
        readable := readable
        writable := fun _ => true } }

theorem endsPage_pointer :
    (Pod.ofBytes ((endsPage (fun _ => true)).memory.view 0x10000 8) : LPVOID .x64) = 0x10FF6 := by
  decide +kernel

theorem endsPage_pointsTo {readable : LPVOID .x64 → Bool}
    (hread : (endsPage readable).memory.CanRead 0x10000 8) :
    (endsPage readable).memory.PointsTo 0x10000 0x10FF6 :=
  ⟨by decide, _, hread.eq_some, endsPage_pointer⟩

theorem endsPage_hasName {readable : LPVOID .x64 → Bool}
    (hread : (endsPage readable).memory.CanRead 0x10FF6 10) :
    (endsPage readable).memory.HasName 0x10FF6 0 (literal "ntdll.dll") where
  ascii := by decide
  short := by decide
  text := rfl
  reads := hread

theorem getDllName_safe_complete_iff_ntdll :
    SafeName (endsPage (fun _ => true)) 0x10000 0 ∧
      CompleteName (endsPage (fun _ => true)) 0x10000 0 := by
  refine (getDllName_safe_complete_iff (TextServices.ascii_keepsAscii .ACP) 0x10000 0).2.mpr ?_
  intro p hpoints hp
  obtain rfl := hpoints.unique (endsPage_pointsTo (fun _ _ => rfl))
  refine ⟨fun _ => ?_, fun hlost => absurd (fun _ _ => rfl) hlost⟩
  rw [FitsBuffers, if_pos rfl]
  decide +kernel

def onePage (a : LPVOID .x64) : Bool := 0x10000 ≤ a ∧ a < 0x11000

def endlessName : Os .x64 :=
  .ofCode (fun a => if 0x10000 ≤ a ∧ a < 0x10008 then if a = 0x10002 then 2 else 0 else 0x41) []

/-- The name is lost where the page behind it cannot be read, and the search leaves the
buffer where no terminator is in it. -/
theorem getDllName_loses_and_overreads :
    ¬ CompleteName (endsPage onePage) 0x10000 0 ∧ ¬ SafeName endlessName 0x10000 0 := by
  constructor
  · intro h
    have hpoints : (endsPage onePage).memory.PointsTo 0x10000 0x10FF6 :=
      endsPage_pointsTo (by unfold Memory.CanRead; decide)
    have hname := h _ _ hpoints (by decide) (endsPage_hasName (by unfold Memory.CanRead; decide))
    rw [getDllName_of_not_canFill hpoints (by decide)] at hname
    · revert hname
      decide
    · intro hfill
      have hnext := hfill 10 (by decide)
      revert hnext
      decide
  · intro h
    have hpoints : endlessName.memory.PointsTo 0x10000 0x20000 :=
      ⟨by decide, _, Memory.CanRead.eq_some (fun _ _ => rfl), by decide⟩
    have hfits := (safeName_iff hpoints (by decide)).mp h (fun _ _ => rfl)
    rw [FitsBuffers, if_pos rfl] at hfits
    revert hfits
    decide +kernel

end RoboDbg
