import RoboDbg.Foundation.Blocks
import RoboDbg.HostileImports

/-!
# The names that the plugin reads

`readCString` reads a name in chunks of 256 bytes, and what it may read is bounded by what
is left of the image behind the name. A chunk is read as a whole or not at all.
-/

namespace RoboDbg

open Loops Imports Blocks

variable {b : Build}

namespace Imports

/-! ## One byte at a time -/

/-- The string at `addr`: up to the first NUL or the first unreadable byte, and at most
`maxLen` bytes of it. -/
def readBytewise (m : Memory b) (addr : DWORD_PTR b) : ℕ → Text
  | 0 => []
  | maxLen + 1 =>
    match m.readByte addr with
    | none => []
    | some x => if x = 0 then [] else x :: readBytewise m (addr + 1) maxLen

def ReadableAt (m : Memory b) (addr : DWORD_PTR b) (k : ℕ) : Prop :=
  m.readable (addr + BitVec.ofNat _ k) = true

def CharAt (m : Memory b) (addr : DWORD_PTR b) (k : ℕ) : Prop :=
  ReadableAt m addr k ∧ m.bytes (addr + BitVec.ofNat _ k) ≠ 0

section Bytewise

variable {m : Memory b} {addr : DWORD_PTR b}

theorem charAt_succ {k : ℕ} : CharAt m (addr + 1) k ↔ CharAt m addr (k + 1) := by
  have haddr : addr + 1 + BitVec.ofNat _ k = addr + BitVec.ofNat _ (k + 1) := by
    rw [Nat.add_comm, BitVec.ofNat_add, BitVec.add_assoc]
    rfl
  rw [CharAt, CharAt, ReadableAt, ReadableAt, haddr]

theorem charAt_zero : CharAt m addr 0 ↔ m.readable addr = true ∧ m.bytes addr ≠ 0 := by
  have haddr : addr + BitVec.ofNat _ 0 = addr := BitVec.add_zero addr
  rw [CharAt, ReadableAt, haddr]

theorem view_succ (m : Memory b) (addr : DWORD_PTR b) (n : ℕ) :
    m.view addr (n + 1) = m.bytes addr :: m.view (addr + 1) n := by
  have hfirst : m.view addr 1 = [m.bytes addr] := by
    simp [Memory.view]
  rw [Nat.add_comm, Memory.view_add, hfirst]
  rfl

theorem mem_view {n : ℕ} {x : BYTE} :
    x ∈ m.view addr n ↔ ∃ k < n, m.bytes (addr + BitVec.ofNat _ k) = x := by
  simp only [Memory.view, List.mem_map, List.mem_range]

theorem readBytewise_stops (m : Memory b) (addr : DWORD_PTR b) (maxLen : ℕ) :
    ∃ p, Stops (CharAt m addr) maxLen p ∧ readBytewise m addr maxLen = m.view addr p := by
  induction maxLen generalizing addr with
  | zero => exact ⟨0, ⟨le_rfl, fun k hk => absurd hk (Nat.not_lt_zero k), fun h => by omega⟩, rfl⟩
  | succ maxLen ih =>
    by_cases hchar : CharAt m addr 0
    · obtain ⟨p, hp, htext⟩ := ih (addr + 1)
      obtain ⟨hread, hbyte⟩ := charAt_zero.mp hchar
      refine ⟨p + 1, ⟨Nat.succ_le_succ hp.le, fun k hk => ?_, fun h => ?_⟩, ?_⟩
      · cases k with
        | zero => exact hchar
        | succ k => exact charAt_succ.mp (hp.before k (Nat.lt_of_succ_lt_succ hk))
      · rw [← charAt_succ]
        exact hp.stop (Nat.lt_of_succ_lt_succ h)
      · rw [readBytewise, Memory.readByte, hread, if_pos rfl, view_succ, ← htext]
        exact if_neg hbyte
    · refine ⟨0, ⟨Nat.zero_le _, fun k hk => absurd hk (Nat.not_lt_zero k), fun _ => hchar⟩, ?_⟩
      rw [charAt_zero] at hchar
      rw [readBytewise, Memory.readByte]
      by_cases hread : m.readable addr = true
      · have hbyte : m.bytes addr = 0 := by
          by_contra hne
          exact hchar ⟨hread, hne⟩
        rw [hread, if_pos rfl]
        exact if_pos hbyte
      · rw [if_neg hread]
        rfl

end Bytewise

/-! ## Chunks -/

def chunkSize (maxLen off : SIZE_T b) : SIZE_T b :=
  if maxLen - off < 256 then maxLen - off else 256

theorem toNat_chunkSize {maxLen off : SIZE_T b} (h : off < maxLen) :
    (chunkSize maxLen off).toNat = min (maxLen.toNat - off.toNat) 256 := by
  have hleft : (maxLen - off).toNat = maxLen.toNat - off.toNat :=
    BitVec.toNat_sub_of_le (BitVec.le_of_lt h)
  have hcond : maxLen - off < 256 ↔ maxLen.toNat - off.toNat < 256 := by
    rw [BitVec.lt_def, hleft, toNat_256]
  by_cases hlast : maxLen - off < 256
  · rw [chunkSize, if_pos hlast, hleft]
    have hlt := hcond.mp hlast
    omega
  · rw [chunkSize, if_neg hlast, toNat_256]
    rw [hcond] at hlast
    omega

def ChunkReadable (m : Memory b) (addr : DWORD_PTR b) (maxLen off : SIZE_T b) : Prop :=
  Whole (ReadableAt m addr) 256 maxLen.toNat off.toNat

section Chunks

variable {m : Memory b} {addr : DWORD_PTR b} {maxLen : SIZE_T b}

theorem add_off (addr off : DWORD_PTR b) (k : ℕ) :
    addr + off + BitVec.ofNat _ k = addr + BitVec.ofNat _ (off.toNat + k) := by
  rw [BitVec.ofNat_add, BitVec.ofNat_toNat, BitVec.setWidth_eq, BitVec.add_assoc]

theorem readProcessMemory_chunk {off : SIZE_T b} (h : off < maxLen) :
    (ChunkReadable m addr maxLen off ∧
      m.readProcessMemory (addr + off) (chunkSize maxLen off).toNat =
        some (m.view (addr + off) (chunkSize maxLen off).toNat)) ∨
    (¬ ChunkReadable m addr maxLen off ∧
      m.readProcessMemory (addr + off) (chunkSize maxLen off).toNat = none) := by
  have hlt : off.toNat < maxLen.toNat := BitVec.lt_def.mp h
  have hiff : ChunkReadable m addr maxLen off ↔ (List.range (chunkSize maxLen off).toNat).all
      (fun k => m.readable (addr + off + BitVec.ofNat _ k)) = true := by
    simp only [ChunkReadable, Whole, ReadableAt, List.all_eq_true, List.mem_range,
      toNat_chunkSize h, add_off]
    constructor
    · intro hall k hk
      exact hall (off.toNat + k) (by omega) (by omega) (by omega)
    · intro hall k hle hchunk hmax
      have hk := hall (k - off.toNat) (by omega)
      rwa [Nat.add_sub_cancel' hle] at hk
  by_cases hc : ChunkReadable m addr maxLen off
  · exact Or.inl ⟨hc, if_pos (hiff.mp hc)⟩
  · exact Or.inr ⟨hc, if_neg (fun hall => hc (hiff.mpr hall))⟩

theorem scanChunk_view (m : Memory b) (a : LPVOID b) (s : Text) (off toRead : SIZE_T b) (n : ℕ) :
    (∃ i < n, (∀ k < i, m.bytes (a + BitVec.ofNat _ k) ≠ 0) ∧
      m.bytes (a + BitVec.ofNat _ i) = 0 ∧
      scanChunk (s, off) toRead (m.view a n) = .done (s ++ m.view a i, off)) ∨
    ((∀ k < n, m.bytes (a + BitVec.ofNat _ k) ≠ 0) ∧
      scanChunk (s, off) toRead (m.view a n) = .again (s ++ m.view a n, off + toRead)) := by
  cases hfind : (m.view a n).findIdx? (· = 0) with
  | none =>
    refine Or.inr ⟨fun k hk => ?_, ?_⟩
    · have hne := List.findIdx?_eq_none_iff.mp hfind _ (mem_view.mpr ⟨k, hk, rfl⟩)
      simpa using hne
    · simp only [scanChunk, hfind]
  | some i =>
    obtain ⟨hi, hzero, hbefore⟩ := List.findIdx?_eq_some_iff_getElem.mp hfind
    rw [Memory.length_view] at hi
    have hget : ∀ k (hk : k < (m.view a n).length),
        (m.view a n)[k] = m.bytes (a + BitVec.ofNat _ k) := fun k hk => by
      simp [Memory.view]
    have htake : (m.view a n).take i = m.view a i := m.take_view a hi.le
    refine Or.inl ⟨i, hi, fun k hk => ?_, ?_, ?_⟩
    · have hne := hbefore k hk
      rw [hget] at hne
      simpa using hne
    · rw [hget] at hzero
      simpa using hzero
    · simp only [scanChunk, hfind, htake]

theorem chunkPass_cases (m : Memory b) (addr : DWORD_PTR b) (maxLen : SIZE_T b) (s : Text)
    (off : SIZE_T b) :
    (maxLen ≤ off ∧ chunkPass m addr maxLen (s, off) = .done (s, off)) ∨
    (off < maxLen ∧ ¬ ChunkReadable m addr maxLen off ∧
      chunkPass m addr maxLen (s, off) = .done (s, off)) ∨
    (off < maxLen ∧ ChunkReadable m addr maxLen off ∧
      ∃ i < (chunkSize maxLen off).toNat,
        (∀ k < i, m.bytes (addr + off + BitVec.ofNat _ k) ≠ 0) ∧
        m.bytes (addr + off + BitVec.ofNat _ i) = 0 ∧
        chunkPass m addr maxLen (s, off) = .done (s ++ m.view (addr + off) i, off)) ∨
    (off < maxLen ∧ ChunkReadable m addr maxLen off ∧
      (∀ k < (chunkSize maxLen off).toNat, m.bytes (addr + off + BitVec.ofNat _ k) ≠ 0) ∧
      chunkPass m addr maxLen (s, off) =
        .again (s ++ m.view (addr + off) (chunkSize maxLen off).toNat,
          off + chunkSize maxLen off)) := by
  by_cases h : off < maxLen
  · rcases @readProcessMemory_chunk b m addr maxLen off h with ⟨hc, hread⟩ | ⟨hc, hread⟩
    · have hpass : chunkPass m addr maxLen (s, off) = scanChunk (s, off) (chunkSize maxLen off)
          (m.view (addr + off) (chunkSize maxLen off).toNat) := by
        unfold chunkSize at hread
        simp only [chunkPass, chunkPassWith, if_pos h, hread]
        rfl
      rw [hpass]
      rcases scanChunk_view m (addr + off) s off (chunkSize maxLen off)
        (chunkSize maxLen off).toNat with hnul | hall
      · exact Or.inr (Or.inr (Or.inl ⟨h, hc, hnul⟩))
      · exact Or.inr (Or.inr (Or.inr ⟨h, hc, hall⟩))
    · have hpass : chunkPass m addr maxLen (s, off) = .done (s, off) := by
        unfold chunkSize at hread
        simp only [chunkPass, chunkPassWith, if_pos h, hread]
      exact Or.inr (Or.inl ⟨h, hc, hpass⟩)
  · exact Or.inl ⟨BitVec.not_lt.mp h, if_neg h⟩

/-- What holds when a pass begins. -/
structure Scanned (m : Memory b) (addr : DWORD_PTR b) (maxLen : SIZE_T b)
    (r : Text × SIZE_T b) : Prop where
  le : r.2.toNat ≤ maxLen.toNat
  before : ∀ k < r.2.toNat, CharAt m addr k
  text : r.1 = m.view addr r.2.toNat
  aligned : r.2.toNat < maxLen.toNat → 256 ∣ r.2.toNat

theorem Scanned.append {s : Text} {off : SIZE_T b} (h : Scanned m addr maxLen (s, off)) (n : ℕ) :
    s ++ m.view (addr + off) n = m.view addr (off.toNat + n) := by
  have hoff : addr + off = addr + BitVec.ofNat _ off.toNat := by
    rw [BitVec.ofNat_toNat, BitVec.setWidth_eq]
  rw [Memory.view_add, ← hoff, ← h.text]

theorem Scanned.extend {s : Text} {off : SIZE_T b} (h : Scanned m addr maxLen (s, off)) {n : ℕ}
    (hlt : off < maxLen) (hread : ChunkReadable m addr maxLen off)
    (hn : n ≤ (chunkSize maxLen off).toNat)
    (hne : ∀ k < n, m.bytes (addr + off + BitVec.ofNat _ k) ≠ 0) :
    ∀ k < off.toNat + n, CharAt m addr k := by
  intro k hk
  rw [toNat_chunkSize hlt] at hn
  by_cases hold : k < off.toNat
  · exact h.before k hold
  · have hbyte := hne (k - off.toNat) (by omega)
    rw [add_off, Nat.add_sub_cancel' (by omega)] at hbyte
    exact ⟨hread k (by omega) (by omega) (by omega), hbyte⟩

variable (m addr maxLen) in
abbrev chunkPasses (_ : ℕ) (r : Text × SIZE_T b) : Option (Pass (Text × SIZE_T b)) :=
  some (chunkPass m addr maxLen r)

theorem chunkPasses_yields {r : Text × SIZE_T b} {p : Pass (Text × SIZE_T b)}
    (h : Yields (fun n => chunkPasses m addr maxLen n r) p) : chunkPass m addr maxLen r = p :=
  (Yields.const _).unique h

theorem visits_scanned {r : Text × SIZE_T b} (h : Visits (chunkPasses m addr maxLen) ([], 0) r) :
    Scanned m addr maxLen r := by
  induction h with
  | start =>
    exact ⟨Nat.zero_le _, fun k hk => absurd hk (Nat.not_lt_zero k), rfl, fun _ => ⟨0, rfl⟩⟩
  | @again r₁ r₂ _ hpass ih =>
    obtain ⟨s, off⟩ := r₁
    have hstep := chunkPasses_yields hpass
    rcases chunkPass_cases m addr maxLen s off with ⟨-, he⟩ | ⟨-, -, he⟩ | ⟨-, -, _, -, -, -, he⟩ |
      ⟨hlt, hread, hne, he⟩
    · rw [he] at hstep
      cases hstep
    · rw [he] at hstep
      cases hstep
    · rw [he] at hstep
      cases hstep
    · rw [he] at hstep
      obtain rfl := Pass.again.inj hstep
      have hsize := toNat_chunkSize hlt
      have hlt' : off.toNat < maxLen.toNat := BitVec.lt_def.mp hlt
      have hmax := maxLen.isLt
      have hnext : (off + chunkSize maxLen off).toNat = off.toNat + (chunkSize maxLen off).toNat :=
        BitVec.toNat_add_of_lt (by omega)
      refine ⟨?_, ?_, ?_, ?_⟩
      · rw [hnext]
        omega
      · rw [hnext]
        exact ih.extend hlt hread le_rfl hne
      · rw [hnext]
        exact ih.append _
      · rw [hnext]
        intro hmore
        have haligned := ih.aligned hlt'
        dsimp only at haligned
        omega

end Chunks

/-- `readCString` is a scan in blocks of 256 bytes. -/
theorem readCString_stops {m : Memory b} {addr : DWORD_PTR b} {maxLen : SIZE_T b} {s : Text}
    (h : Yields (fun n => readCString n m addr maxLen) s) :
    ∃ q, StopsInBlocks (CharAt m addr) (ReadableAt m addr) 256 maxLen.toNat q ∧
      s = m.view addr q := by
  obtain ⟨n, hn⟩ := h.exists_eq
  obtain ⟨r, hr, rfl⟩ := Option.map_eq_some_iff.mp hn
  obtain ⟨⟨s, off⟩, hvisits, hdone⟩ := (Definite.const _).visits (n := n) hr
  have hscan := visits_scanned hvisits
  have hstep := chunkPasses_yields hdone
  have hle := hscan.le
  dsimp only at hle
  rcases chunkPass_cases m addr maxLen s off with ⟨hend, he⟩ | ⟨hlt, hlost, he⟩ |
    ⟨hlt, hread, i, hi, hne, hzero, he⟩ | ⟨-, -, -, he⟩
  · rw [he] at hstep
    obtain rfl := Pass.done.inj hstep
    have hend' : maxLen.toNat ≤ off.toNat := BitVec.le_def.mp hend
    exact ⟨off.toNat, ⟨hle, hscan.before, fun h => by omega⟩, hscan.text⟩
  · rw [he] at hstep
    obtain rfl := Pass.done.inj hstep
    exact ⟨off.toNat, ⟨hle, hscan.before, fun h => Or.inr ⟨hscan.aligned h, hlost⟩⟩, hscan.text⟩
  · rw [he] at hstep
    obtain rfl := Pass.done.inj hstep
    have hsize := toNat_chunkSize hlt
    have hlt' : off.toNat < maxLen.toNat := BitVec.lt_def.mp hlt
    have hstart : 256 * ((off.toNat + i) / 256) = off.toNat := by
      have haligned := hscan.aligned hlt'
      dsimp only at haligned
      omega
    refine ⟨off.toNat + i, ⟨by omega, hscan.extend hlt hread hi.le hne, fun _ => Or.inl ⟨?_, ?_⟩⟩,
      hscan.append i⟩
    · rw [hstart]
      exact hread
    · rintro ⟨-, hbyte⟩
      rw [add_off] at hzero
      exact hbyte hzero
  · rw [he] at hstep
    cases hstep

theorem readCString_view {m : Memory b} {addr : DWORD_PTR b} {maxLen : SIZE_T b} {s : Text}
    (h : Yields (fun n => readCString n m addr maxLen) s) :
    s.length ≤ maxLen.toNat ∧ 0 ∉ s ∧ s = m.view addr s.length := by
  obtain ⟨q, hq, rfl⟩ := readCString_stops h
  rw [Memory.length_view]
  refine ⟨hq.le, ?_, rfl⟩
  rw [mem_view]
  rintro ⟨k, hk, hzero⟩
  exact (hq.before k hk).2 hzero

theorem readCString_lost {m : Memory b} {addr : DWORD_PTR b} {maxLen : SIZE_T b}
    (h : ¬ ChunkReadable m addr maxLen 0) : Yields (fun n => readCString n m addr maxLen) [] := by
  have hpass : chunkPass m addr maxLen ([], 0) = .done ([], 0) := by
    rcases chunkPass_cases m addr maxLen [] 0 with ⟨-, he⟩ | ⟨-, -, he⟩ | ⟨-, hread, -⟩ |
      ⟨-, hread, -⟩
    · exact he
    · exact he
    · exact absurd hread h
    · exact absurd hread h
  have hend : Ends (chunkPasses m addr maxLen) ([], 0) ([], 0) :=
    Ends.done (hpass ▸ Yields.const _)
  exact hend.yields.map Prod.fst

end Imports

/-! ## Against the plain reading -/

/-- Reading in chunks gives the string that reading single bytes gives exactly if every
chunk is readable that begins inside the string. -/
theorem readCString_readBytewise_iff (m : Memory b) (addr : DWORD_PTR b) (maxLen : SIZE_T b) :
    Yields (fun n => readCString n m addr maxLen) (readBytewise m addr maxLen.toNat) ↔
      Available (CharAt m addr) (ReadableAt m addr) 256 maxLen.toNat := by
  obtain ⟨s, hs⟩ := readCString_yields m addr maxLen
  obtain ⟨q, hq, rfl⟩ := readCString_stops hs
  obtain ⟨p, hp, htext⟩ := readBytewise_stops m addr maxLen.toNat
  have hgood : ∀ k, CharAt m addr k → ReadableAt m addr k := fun _ h => h.1
  rw [htext, ← hq.eq_iff hgood hp]
  constructor
  · intro h
    have hview := congrArg List.length (hs.unique h)
    rwa [Memory.length_view, Memory.length_view] at hview
  · rintro rfl
    exact hs

/-- `AB` and its NUL are the last three bytes of a page that no readable one follows. -/
def endOfPage : Memory .x64 where
  bytes a := if a = 0x10FFD then 0x41 else if a = 0x10FFE then 0x42 else 0
  writer _ := .debuggee
  readable a := 0x10000 ≤ a ∧ a < 0x11000
  writable _ := true

theorem readCString_drops_name :
    ¬ Yields (fun n => readCString n endOfPage 0x10FFD 256)
      (readBytewise endOfPage 0x10FFD (256 : SIZE_T .x64).toNat) := by
  intro h
  have hlost : ¬ ChunkReadable endOfPage 0x10FFD 256 0 := by
    intro hall
    have hlast : ReadableAt endOfPage 0x10FFD 255 := hall 255 (by decide) (by decide) (by decide)
    revert hlast
    unfold ReadableAt
    decide
  have hempty := readCString_lost hlost
  have hsame := hempty.unique h
  revert hsame
  decide +kernel

/-! ## Inside the image -/

namespace Imports

/-- The result depends on what the reader answers to these arguments. -/
def Calls {A L β α : Type} (f : (A → L → β) → α) (addr : A) (len : L) : Prop :=
  ∃ read read', (∀ a l, ¬ (a = addr ∧ l = len) → read a l = read' a l) ∧ f read ≠ f read'

/-- `readCString` asks the system for the byte at `a`. -/
def Requests (m : Memory b) (addr : DWORD_PTR b) (maxLen : SIZE_T b) (a : LPVOID b) : Prop :=
  ∃ r, Visits (chunkPasses m addr maxLen) ([], 0) r ∧
    ∃ start len, Calls (fun read => chunkPassWith read addr maxLen r) start len ∧
      ∃ k < len, a = start + BitVec.ofNat _ k

theorem chunkPassWith_calls {addr : DWORD_PTR b} {maxLen : SIZE_T b} {r : Text × SIZE_T b}
    {start : LPVOID b} {len : ℕ}
    (h : Calls (fun read => chunkPassWith read addr maxLen r) start len) :
    r.2 < maxLen ∧ start = addr + r.2 ∧ len = (chunkSize maxLen r.2).toNat := by
  obtain ⟨read, read', hagree, hne⟩ := h
  by_cases hlt : r.2 < maxLen
  · by_cases hsame : addr + r.2 = start ∧ (chunkSize maxLen r.2).toNat = len
    · exact ⟨hlt, hsame.1.symm, hsame.2.symm⟩
    · have hread := hagree _ _ hsame
      unfold chunkSize at hread
      refine absurd ?_ hne
      simp only [chunkPassWith, if_pos hlt, hread]
  · refine absurd ?_ hne
    simp only [chunkPassWith, if_neg hlt]

theorem Requests.offset {m : Memory b} {addr : DWORD_PTR b} {maxLen : SIZE_T b} {a : LPVOID b}
    (h : Requests m addr maxLen a) : ∃ k < maxLen.toNat, a = addr + BitVec.ofNat _ k := by
  obtain ⟨⟨s, off⟩, -, start, len, hcall, k, hk, rfl⟩ := h
  obtain ⟨hlt, rfl, rfl⟩ := chunkPassWith_calls hcall
  have hlt' : off.toNat < maxLen.toNat := BitVec.lt_def.mp hlt
  rw [toNat_chunkSize hlt] at hk
  exact ⟨off.toNat + k, by dsimp only at hk; omega, add_off addr off k⟩

/-- What `spanLeftInModule` leaves stays in the module, also where `va` has wrapped. -/
theorem lt_spanLeftInModule {base : HMODULE b} {va : DWORD_PTR b} {sizeOfImage : DWORD} {k : ℕ}
    (h : k < (spanLeftInModule base va sizeOfImage).toNat) :
    ∃ j < sizeOfImage.toNat, va + BitVec.ofNat _ k = base + BitVec.ofNat _ j := by
  have hsize : (sizeOfImage.setWidth b.bits).toNat = sizeOfImage.toNat := by
    apply BitVec.toNat_setWidth_of_le
    cases b <;> decide
  by_cases hbelow : va < base
  · rw [spanLeftInModule, if_pos hbelow] at h
    exact absurd h (Nat.not_lt_zero k)
  · by_cases hbehind : sizeOfImage.setWidth b.bits ≤ va - base
    · rw [spanLeftInModule, if_neg hbelow] at h
      dsimp only at h
      rw [if_pos hbehind] at h
      exact absurd h (Nat.not_lt_zero k)
    · have hoff : (va - base).toNat < sizeOfImage.toNat := by
        rwa [BitVec.not_le, BitVec.lt_def, hsize] at hbehind
      have hleft : (spanLeftInModule base va sizeOfImage).toNat =
          sizeOfImage.toNat - (va - base).toNat := by
        rw [spanLeftInModule, if_neg hbelow]
        dsimp only
        rw [if_neg hbehind, BitVec.toNat_sub_of_le (BitVec.le_of_lt (BitVec.not_le.mp hbehind)),
          hsize]
      refine ⟨(va - base).toNat + k, by omega, ?_⟩
      rw [← add_off, BitVec.add_comm base, BitVec.sub_add_cancel]

/-! ## The calls -/

/-- The calls of `readCString` that the walk makes: one for a descriptor that has a name and
one for a thunk that is not by ordinal. -/
inductive Module.ReadsName (M : Module b) (entries : List (IatRecord b)) :
    DWORD_PTR b → SIZE_T b → Prop
  | dllName {idx : DWORD} {es : List (IatRecord b)} {addr : DWORD_PTR b} {maxLen : SIZE_T b}
      (h : Visits (fun n => descriptorPass n M) (0, entries) (idx, es))
      (hlive : ¬ Module.Closes (M.descriptor idx))
      (hcall : Calls (fun read => readDllNameWith read M (M.descriptor idx)) addr maxLen) :
      ReadsName M entries addr maxLen
  | funcName {idx : DWORD} {i : SIZE_T b} {dllName : Text} {es es' : List (IatRecord b)}
      {addr : DWORD_PTR b} {maxLen : SIZE_T b}
      (h : Visits (fun n => descriptorPass n M) (0, entries) (idx, es))
      (hlive : ¬ Module.Closes (M.descriptor idx))
      (hname : Yields (fun n => readDllName n M (M.descriptor idx)) dllName)
      (hstarts : ¬ M.StartsOutside (M.descriptor idx))
      (h' : Visits (fun n => M.thunkLoop (M.descriptor idx) dllName n) (0, es) (i, es'))
      (hcall : Calls (fun read => thunkPassWith read M dllName
        (rvaToVa M.base (Module.oftRva (M.descriptor idx)))
        (rvaToVa M.base (M.descriptor idx).FirstThunk) (i, es')) addr maxLen) :
      ReadsName M entries addr maxLen

/-- `collectModuleIat` calls `readCString` with these arguments. -/
def ReadsName (m : Memory b) (imports : Imports b) (base : HMODULE b) (modulePath : Option Text)
    (addr : DWORD_PTR b) (maxLen : SIZE_T b) : Prop :=
  ∃ ni, getNtInfo m base = some ni ∧
    Module.ReadsName ⟨m, base, modulePath, ni⟩ imports.entries_ addr maxLen

section Calls

variable {α : Type} {M : Module b} {f : NameReader b → Option α} {addr : DWORD_PTR b}
  {maxLen : SIZE_T b}

/-- `f` reads no string, or one that may go on to the end of the module. -/
def Module.ReadsInside (M : Module b) (f : NameReader b → Option α) : Prop :=
  (∃ x, ∀ read, f read = x) ∨ ∃ addr, ∃ g : Text → α, ∀ read,
    f read = (read addr (spanLeftInModule M.base addr M.ni.sizeOfImage)).map g

theorem Module.ReadsInside.bounded (h : M.ReadsInside f) (hcall : Calls f addr maxLen) :
    maxLen = spanLeftInModule M.base addr M.ni.sizeOfImage := by
  obtain ⟨read, read', hagree, hne⟩ := hcall
  rcases h with ⟨x, hx⟩ | ⟨addr', g, hread⟩
  · exact absurd ((hx read).trans (hx read').symm) hne
  · by_cases hsame : addr' = addr ∧ spanLeftInModule M.base addr' M.ni.sizeOfImage = maxLen
    · obtain ⟨rfl, rfl⟩ := hsame
      rfl
    · rw [hread, hread, hagree _ _ hsame] at hne
      exact absurd rfl hne

/-- Readers that agree on the calls give the same result. -/
theorem Module.ReadsInside.congr (h : M.ReadsInside f) {read read' : NameReader b}
    (hagree : ∀ addr maxLen, Calls f addr maxLen → read addr maxLen = read' addr maxLen) :
    f read = f read' := by
  rcases h with ⟨x, hx⟩ | ⟨addr, g, hread⟩
  · rw [hx, hx]
  · have hcall : Calls f addr (spanLeftInModule M.base addr M.ni.sizeOfImage) := by
      let silent : NameReader b := fun a l =>
        if a = addr ∧ l = spanLeftInModule M.base addr M.ni.sizeOfImage then none else some []
      refine ⟨fun _ _ => some [], silent, fun a l hother => (if_neg hother).symm, ?_⟩
      rw [hread, hread, show silent _ _ = none from if_pos ⟨rfl, rfl⟩]
      exact Option.some_ne_none _
    rw [hread, hread, hagree _ _ hcall]

theorem readDllNameWith_inside (imp : ImageImportDescriptor) :
    M.ReadsInside (fun read => readDllNameWith read M imp) := by
  by_cases hname : imp.Name ≠ 0
  · refine Or.inr ⟨rvaToVa M.base imp.Name, id, fun read => ?_⟩
    rw [Option.map_id]
    exact if_pos hname
  · exact Or.inl ⟨_, fun read => if_neg hname⟩

theorem thunkPassWith_inside (dllName : Text) (oft ft : LPVOID b)
    (r : SIZE_T b × List (IatRecord b)) :
    M.ReadsInside (fun read => thunkPassWith read M dllName oft ft r) := by
  by_cases hzero : M.thunk oft r.1 = 0
  · exact Or.inl ⟨_, fun read => if_pos hzero⟩
  · by_cases hord : M.thunk oft r.1 &&& ordFlag M.ni.is64 ≠ 0
    · exact Or.inl ⟨_, fun read => (if_neg hzero).trans (if_pos hord)⟩
    · exact Or.inr ⟨_, _, fun read => (if_neg hzero).trans (if_neg hord)⟩

end Calls

theorem Module.ReadsName.bounded {M : Module b} {entries : List (IatRecord b)}
    {addr : DWORD_PTR b} {maxLen : SIZE_T b} (h : M.ReadsName entries addr maxLen) :
    maxLen = spanLeftInModule M.base addr M.ni.sizeOfImage := by
  cases h with
  | dllName h hlive hcall => exact (readDllNameWith_inside _).bounded hcall
  | funcName h hlive hname hstarts h' hcall => exact (thunkPassWith_inside _ _ _ _).bounded hcall

section Readers

variable {M : Module b} {entries : List (IatRecord b)} {n : ℕ} {read : NameReader b}
  (hagree : ∀ addr maxLen, M.ReadsName entries addr maxLen →
    read addr maxLen = readCString n M.memory addr maxLen)
include hagree

theorem descriptorPassWith_congr {idx : DWORD} {es : List (IatRecord b)}
    (h : Visits (fun n => descriptorPass n M) (0, entries) (idx, es)) :
    descriptorPassWith read n M (idx, es) = descriptorPass n M (idx, es) := by
  by_cases hclose : Module.Closes (M.descriptor idx)
  · exact (if_pos hclose).trans (if_pos hclose).symm
  · have hdll : readDllNameWith read M (M.descriptor idx) = readDllName n M (M.descriptor idx) :=
      (readDllNameWith_inside _).congr (fun _ _ hcall => hagree _ _ (.dllName h hclose hcall))
    have hpass : descriptorPassWith read n M (idx, es) =
        (readDllNameWith read M (M.descriptor idx)).bind (fun dllName =>
          if M.StartsOutside (M.descriptor idx) then some (.again (idx + 1, es))
          else
            (forever (thunkPassWith read M dllName
              (rvaToVa M.base (Module.oftRva (M.descriptor idx)))
              (rvaToVa M.base (M.descriptor idx).FirstThunk)) n (0, es)).map
              (fun s => .again (idx + 1, s.2))) := if_neg hclose
    rw [hpass, descriptorPass_eq hclose, hdll]
    cases hname : readDllName n M (M.descriptor idx) with
    | none => rfl
    | some dllName =>
      simp only [Option.bind_some]
      split_ifs with hout
      · rfl
      · have hloop : forever (thunkPassWith read M dllName
              (rvaToVa M.base (Module.oftRva (M.descriptor idx)))
              (rvaToVa M.base (M.descriptor idx).FirstThunk)) n (0, es) =
            forever (M.thunkLoop (M.descriptor idx) dllName n) n (0, es) := by
          refine Definite.forever_congr thunkPass_definite (fun s hs => ?_) n
          have hdllName := readDllName_definite hname
          exact (thunkPassWith_inside _ _ _ s).congr (fun _ _ hcall =>
            hagree _ _ (.funcName h hclose hdllName hout hs hcall))
        rw [hloop]

end Readers

theorem collectModuleIatWith_congr {m : Memory b} {imports : Imports b} {base : HMODULE b}
    {modulePath : Option Text} {n : ℕ} {read : NameReader b}
    (hagree : ∀ addr maxLen, ReadsName m imports base modulePath addr maxLen →
      read addr maxLen = readCString n m addr maxLen) :
    collectModuleIatWith read n m imports base modulePath =
      collectModuleIat n m imports base modulePath := by
  simp only [collectModuleIat, collectModuleIatWith]
  cases hni : getNtInfo m base with
  | none => rfl
  | some ni =>
    have hloop : forever (descriptorPassWith read n ⟨m, base, modulePath, ni⟩) n
          (0, imports.entries_) =
        forever (descriptorPass n ⟨m, base, modulePath, ni⟩) n (0, imports.entries_) := by
      refine Definite.forever_congr descriptorPass_definite (fun s hs => ?_) n
      exact descriptorPassWith_congr
        (fun addr maxLen hread => hagree addr maxLen ⟨ni, hni, hread⟩) hs
    exact congrArg (Option.map _) hloop

/-! ## The names of the records -/

namespace Module

def HasString (M : Module b) (s : Text) : Prop :=
  0 ∉ s ∧ ∃ addr, s = M.memory.view addr s.length ∧
    ∀ k < s.length, ∃ j < M.ni.sizeOfImage.toNat,
      addr + BitVec.ofNat _ k = M.base + BitVec.ofNat _ j

def HasDllName (M : Module b) (dllName : Text) : Prop :=
  dllName = literal "<no-name>" ∨ M.HasString dllName

/-- The names in a record are strings of the image or say that there is none. -/
structure Named (M : Module b) (r : IatRecord b) : Prop where
  dllName : M.HasDllName r.dllName
  funcName : (r.byOrdinal = true ∧ r.funcName = []) ∨ (r.byOrdinal = false ∧
    (r.funcName = literal "<name-read-failed>" ∨ M.HasString r.funcName))

end Module

variable {M : Module b} {n : ℕ}

theorem hasString_of_readCString {addr : DWORD_PTR b} {s : Text}
    (h : readCString n M.memory addr (spanLeftInModule M.base addr M.ni.sizeOfImage) = some s) :
    M.HasString s := by
  obtain ⟨hle, hnul, hview⟩ := readCString_view (readCString_definite h)
  exact ⟨hnul, addr, hview, fun k hk => lt_spanLeftInModule (hk.trans_le hle)⟩

theorem readDllName_hasDllName {imp : ImageImportDescriptor} {dllName : Text}
    (h : readDllName n M imp = some dllName) : M.HasDllName dllName := by
  unfold readDllName readDllNameWith at h
  split_ifs at h
  · exact Or.inr (hasString_of_readCString h)
  · exact Or.inl (Option.some.inj h).symm

theorem thunkPass_named {dllName : Text} {oft ft : LPVOID b} (hdll : M.HasDllName dllName)
    {i : SIZE_T b} {es : List (IatRecord b)} {p : Pass (SIZE_T b × List (IatRecord b))}
    (h : thunkPass n M dllName oft ft (i, es) = some p) :
    p = .done (i, es) ∨ ∃ r, M.Named r ∧ p = .again (i + 1, es ++ [r]) := by
  simp only [thunkPass, thunkPassWith] at h
  split_ifs at h
  · exact Or.inl (Option.some.inj h).symm
  · obtain rfl := Option.some.inj h
    exact Or.inr ⟨_, ⟨hdll, Or.inl ⟨rfl, rfl⟩⟩, rfl⟩
  · obtain ⟨name, hname, rfl⟩ := Option.map_eq_some_iff.mp h
    refine Or.inr ⟨_, ⟨hdll, Or.inr ⟨rfl, ?_⟩⟩, rfl⟩
    by_cases hempty : name.isEmpty
    · exact Or.inl (if_pos hempty)
    · right
      rw [if_neg hempty]
      exact hasString_of_readCString hname

variable {entries : List (IatRecord b)}

/-- The records that were there before, and others with names as they should be. -/
def NamedFrom (M : Module b) (entries es : List (IatRecord b)) : Prop :=
  ∀ r ∈ es, r ∈ entries ∨ M.Named r

theorem NamedFrom.append {es : List (IatRecord b)} {r : IatRecord b}
    (h : NamedFrom M entries es) (hr : M.Named r) : NamedFrom M entries (es ++ [r]) := by
  intro r' hr'
  rcases List.mem_append.mp hr' with hold | hnew
  · exact h r' hold
  · rw [List.mem_singleton.mp hnew]
    exact Or.inr hr

theorem thunks_named {dllName : Text} {oft ft : LPVOID b} (hdll : M.HasDllName dllName)
    {k : ℕ} {s s' : SIZE_T b × List (IatRecord b)} (hs : NamedFrom M entries s.2)
    (h : forever (thunkPass n M dllName oft ft) k s = some s') : NamedFrom M entries s'.2 := by
  refine forever_invariant (I := fun s => NamedFrom M entries s.2) ?_ ?_ hs h
  · rintro ⟨i, es⟩ s₁ hes hpass
    rcases thunkPass_named hdll hpass with he | ⟨r, hr, he⟩
    · cases he
    · obtain rfl := Pass.again.inj he
      exact NamedFrom.append hes hr
  · rintro ⟨i, es⟩ s₁ hes hpass
    rcases thunkPass_named hdll hpass with he | ⟨r, hr, he⟩
    · obtain rfl := Pass.done.inj he
      exact hes
    · cases he

theorem descriptorPass_named {idx : DWORD} {es : List (IatRecord b)}
    (hes : NamedFrom M entries es) {p : Pass (DWORD × List (IatRecord b))}
    (h : descriptorPass n M (idx, es) = some p) :
    ∃ s, (p = .done s ∨ p = .again s) ∧ NamedFrom M entries s.2 := by
  by_cases hclose : Module.Closes (M.descriptor idx)
  · rw [descriptorPass_closes hclose] at h
    obtain rfl := Option.some.inj h
    exact ⟨(idx, es), Or.inl rfl, hes⟩
  · rw [descriptorPass_eq hclose] at h
    obtain ⟨dllName, hname, hrest⟩ := Option.bind_eq_some_iff.mp h
    split_ifs at hrest with hout
    · obtain rfl := Option.some.inj hrest
      exact ⟨(idx + 1, es), Or.inr rfl, hes⟩
    · obtain ⟨s, hs, rfl⟩ := Option.map_eq_some_iff.mp hrest
      exact ⟨(idx + 1, s.2), Or.inr rfl, thunks_named (readDllName_hasDllName hname) hes hs⟩

/-- The names that a whole walk records are strings of the image. -/
theorem collectModuleIat_named {m : Memory b} {imports imports' : Imports b}
    {base : HMODULE b} {modulePath : Option Text} {ni : NtInfo} (hni : getNtInfo m base = some ni)
    (h : collectModuleIat n m imports base modulePath = some imports') :
    NamedFrom ⟨m, base, modulePath, ni⟩ imports.entries_ imports'.entries_ := by
  simp only [collectModuleIat, collectModuleIatWith, hni] at h
  obtain ⟨s, hs, rfl⟩ := Option.map_eq_some_iff.mp h
  refine forever_invariant (I := fun s => NamedFrom _ imports.entries_ s.2) ?_ ?_
    (fun r hr => Or.inl hr) hs
  · rintro ⟨idx, es⟩ s₁ hes hpass
    obtain ⟨s₂, he | he, hs₂⟩ := descriptorPass_named hes hpass
    · cases he
    · obtain rfl := Pass.again.inj he
      exact hs₂
  · rintro ⟨idx, es⟩ s₁ hes hpass
    obtain ⟨s₂, he | he, hs₂⟩ := descriptorPass_named hes hpass
    · obtain rfl := Pass.done.inj he
      exact hs₂
    · cases he

end Imports

/-- Whatever the debuggee's memory holds, a name is read inside the image, and the string is
what lies there. The walk depends on no other string, and the names of its records are
such strings. -/
theorem collectModuleIat_reads_names_inside (m : Memory b) (imports : Imports b)
    (base : HMODULE b) (modulePath : Option Text) :
    (∀ addr maxLen, ReadsName m imports base modulePath addr maxLen →
      ∃ ni, getNtInfo m base = some ni ∧
        (∀ a, Requests m addr maxLen a →
          ∃ k < ni.sizeOfImage.toNat, a = base + BitVec.ofNat _ k) ∧
        ∃ s, Yields (fun n => readCString n m addr maxLen) s ∧ 0 ∉ s ∧
          s = m.view addr s.length) ∧
    (∀ n read, (∀ addr maxLen, ReadsName m imports base modulePath addr maxLen →
        read addr maxLen = readCString n m addr maxLen) →
      collectModuleIatWith read n m imports base modulePath =
        collectModuleIat n m imports base modulePath) ∧
    ∀ n imports' ni, getNtInfo m base = some ni →
      collectModuleIat n m imports base modulePath = some imports' →
      NamedFrom ⟨m, base, modulePath, ni⟩ imports.entries_ imports'.entries_ := by
  refine ⟨?_, fun n read => collectModuleIatWith_congr, fun n imports' ni hni =>
    collectModuleIat_named hni⟩
  rintro addr maxLen ⟨ni, hni, hcall⟩
  refine ⟨ni, hni, fun a ha => ?_, ?_⟩
  · obtain ⟨k, hk, rfl⟩ := ha.offset
    rw [hcall.bounded] at hk
    exact lt_spanLeftInModule hk
  · obtain ⟨s, hs⟩ := readCString_yields m addr maxLen
    obtain ⟨-, hnul, hview⟩ := readCString_view hs
    exact ⟨s, hs, hnul, hview⟩

/-- A descriptor of the page of `hostile` that has a name: the two bytes at `0xD0`. -/
def hostileName : Memory .x64 :=
  { hostile with bytes := Function.update hostile.bytes 0x1015C 0xD0 }

theorem collectModuleIat_reads_names_inside_hostileName :
    ∃ ni, getNtInfo hostileName 0x10000 = some ni ∧
      (∀ a, Requests hostileName 0x100D0 0x130 a →
        ∃ k < ni.sizeOfImage.toNat, a = 0x10000 + BitVec.ofNat _ k) ∧
      ∃ s, Yields (fun n => readCString n hostileName 0x100D0 0x130) s ∧ 0 ∉ s ∧
        s = hostileName.view 0x100D0 s.length := by
  have hdesc : Module.descriptor ⟨hostileName, 0x10000, none, ⟨true, 0x200, ⟨0x150, 0x28⟩⟩⟩ 0 =
      ⟨0x180, 0xD0, 0x1FC⟩ := by
    decide +kernel
  have hcall : ReadsName hostileName ⟨[]⟩ 0x10000 none 0x100D0 0x130 := by
    refine ⟨⟨true, 0x200, ⟨0x150, 0x28⟩⟩, by decide +kernel,
      .dllName .start (by rw [hdesc]; decide) ?_⟩
    rw [hdesc]
    exact ⟨fun _ _ => some [], fun a l => if a = 0x100D0 ∧ l = 0x130 then none else some [],
      fun a l hother => (if_neg hother).symm, by decide +kernel⟩
  exact (collectModuleIat_reads_names_inside _ _ _ _).1 _ _ hcall

end RoboDbg
