import RoboDbg.ImportHooks
import RoboDbg.Protection
import RoboDbg.Transparency

/-!
# Reading a debugged process

A callback that reads the memory of the debuggee finds the int3s in it. Off the table of
breakpoints it reads what the program would hold without a debugger: a search differs only
where the pattern meets a breakpoint, and the imports are the same if no breakpoint stands
in the tables of a module.
-/

namespace RoboDbg

open Loops Stutter Debugger Imports

variable {b : Build} {σ : Type*}

/-! ## Searches -/

namespace PageTable

def holding (t : PageTable b) (bytes : LPVOID b → BYTE) : PageTable b := { t with bytes := bytes }

variable {t : PageTable b} {f g : LPVOID b → BYTE} {p : List BYTE} {a : LPVOID b}

theorem Occurs.holding (h : (t.holding f).Occurs p a)
    (hsame : ∀ i < p.length, f (a + BitVec.ofNat _ i) = g (a + BitVec.ofNat _ i)) :
    (t.holding g).Occurs p a := by
  refine ⟨(Memory.view_congr (fun i hi => ?_)).trans h.view, h.low, h.last, h.accessible, h.same⟩
  exact (hsame i hi).symm

theorem occurs_holding_iff
    (hsame : ∀ i < p.length, f (a + BitVec.ofNat _ i) = g (a + BitVec.ofNat _ i)) :
    (t.holding f).Occurs p a ↔ (t.holding g).Occurs p a :=
  ⟨fun h => h.holding hsame, fun h => h.holding (fun i hi => (hsame i hi).symm)⟩

theorem Occurs.byte_mem (h : (t.holding f).Occurs p a) {i : ℕ} (hi : i < p.length) :
    f (a + BitVec.ofNat _ i) ∈ p := by
  have hmem : f (a + BitVec.ofNat _ i) ∈ (t.holding f).memory.view a p.length :=
    List.mem_map_of_mem (List.mem_range.mpr hi)
  rwa [h.view] at hmem

end PageTable

/-! ## Modules -/

namespace LoadedModule

variable {M : LoadedModule b} {m : Memory b}

/-- All that `collectModuleIat` reads of the module. -/
def footprint (M : LoadedModule b) : Set (LPVOID b) :=
  M.reads ∪ {a | ∃ s ∈ M.slots, a ∈ s.addresses}

theorem collectModuleIat_same (hr : m.readable = M.image.memory.readable)
    (hsame : ∀ a ∈ M.footprint, m.bytes a = M.image.memory.bytes a) (path : Option Text)
    (imports : Imports b) :
    Yields (fun n => Imports.collectModuleIat n m imports M.image.base path)
      ⟨imports.entries_ ++ M.records path⟩ := by
  have hagain := M.collectModuleIat_again hr (fun a ha => hsame a (Or.inl ha)) path imports
  have hreread : ∀ r ∈ M.records path, r.reread m M.is64 = r := by
    intro r hrec
    obtain ⟨s, hs, haddress, his64, htarget⟩ := M.record_slot hrec
    have hpointer : s.pointer m = s.pointer M.image.memory :=
      IatSlot.pointer_congr (M.slot_readable hs) hr (fun a ha => hsame a (Or.inr ⟨s, hs, ha⟩))
    have hthunk : readThunk m M.is64 r.iatSlot = s.pointer m := by
      rw [IatSlot.pointer, haddress, his64]
    rw [IatRecord.reread, hthunk, hpointer, ← htarget]
  rwa [List.map_congr_left hreread, List.map_id'] at hagain

end LoadedModule

/-! ## The debugged process -/

variable {exec : Exec b σ} {starts : Set (LPVOID b)} {tid : DWORD} {m : Machine b σ} {s : Bare b σ}

namespace Matches

/-- Where no breakpoint is set the debuggee holds what the program holds. -/
theorem byte_eq (h : Matches tid m s) {a : LPVOID b} (ha : a ∉ m.dbg.breakpoints) :
    m.dbg.os.memory.bytes a = s.memory a := by
  by_contra hne
  have hfiled := (h.memory a hne).2
  exact ha (Std.TreeMap.isSome_getElem?_iff_mem.mp (Option.isSome_of_eq_some hfiled))

theorem byte_eq_of_not_armed (h : Matches tid m s) {a : LPVOID b} (ha : ¬ m.dbg.Armed a) :
    m.dbg.os.memory.bytes a = s.memory a := by
  by_contra hne
  exact ha (h.memory a hne).1

theorem search (h : Matches tid m s) (t : PageTable b) {pattern : ByteVector b}
    (hne : pattern.bytes ≠ []) :
    ∃ found found₀,
      Yields (fun n => (t.holding m.dbg.os.memory.bytes).space.searchInMemory n pattern) found ∧
      Yields (fun n => (t.holding s.memory).space.searchInMemory n pattern) found₀ ∧
      (∀ a, (∀ i < pattern.bytes.length, a + BitVec.ofNat _ i ∉ m.dbg.breakpoints) →
        (a ∈ found ↔ a ∈ found₀)) ∧
      (int3 ∉ pattern.bytes → ∀ a, a ∈ found ↔
        a ∈ found₀ ∧ ∀ i < pattern.bytes.length, ¬ m.dbg.Armed (a + BitVec.ofNat _ i)) := by
  obtain ⟨found, hyields, -, hmem⟩ := (t.holding m.dbg.os.memory.bytes).exists_found hne
  obtain ⟨found₀, hyields₀, -, hmem₀⟩ := (t.holding s.memory).exists_found hne
  refine ⟨found, found₀, hyields, hyields₀, fun a ha => ?_, fun hno a => ?_⟩
  · rw [hmem, hmem₀]
    exact PageTable.occurs_holding_iff (fun i hi => h.byte_eq (ha i hi))
  · rw [hmem, hmem₀]
    constructor
    · intro hocc
      have hclear : ∀ i < pattern.bytes.length, ¬ m.dbg.Armed (a + BitVec.ofNat _ i) := by
        intro i hi harmed
        have hbyte : m.dbg.os.memory.bytes (a + BitVec.ofNat _ i) = int3 := harmed
        exact hno (hbyte ▸ hocc.byte_mem hi)
      exact ⟨hocc.holding (fun i hi => h.byte_eq_of_not_armed (hclear i hi)), hclear⟩
    · rintro ⟨hocc, hclear⟩
      exact hocc.holding (fun i hi => (h.byte_eq_of_not_armed (hclear i hi)).symm)

theorem collect (h : Matches tid m s) {mods : List (LoadedModule b)} {P : Psapi b}
    {stack : ℕ → HMODULE b} {hProcess_ : HANDLE} (hprocess : hProcess_ ≠ 0)
    (hok : P.refuses = false) (hmods : P.modules = mods.map (·.image.base))
    (hle : mods.length ≤ 1024)
    (hheld : ∀ M ∈ mods, M.image.memory.bytes = s.memory ∧
      M.image.memory.readable = m.dbg.os.memory.readable)
    (hclear : ∀ M ∈ mods, ∀ a ∈ M.footprint, a ∉ m.dbg.breakpoints) :
    Yields (fun n => collect n m.dbg.os.memory P stack hProcess_)
      (true, ⟨mods.flatMap (fun M => M.records (some (P.fileName M.image.base)))⟩) := by
  have hlen : P.modules.length ≤ 1024 := by
    rw [hmods, List.length_map]
    exact hle
  have hall := collectModules_yields (P := P) (m := m.dbg.os.memory) mods
    (fun M hM imports => M.collectModuleIat_same (hheld M hM).2.symm
      (fun a ha => by rw [(hheld M hM).1]; exact h.byte_eq (hclear M hM a ha))
      (some (P.fileName M.image.base)) imports) ⟨[]⟩
  rw [← hmods, List.nil_append] at hall
  simp only [collect_of_le _ m.dbg.os.memory stack hprocess hok hlen]
  exact hall.map _

end Matches

/-- Breakpoints at distinct addresses and any answers: at every step of the debugged process,
at which the program alone would be in some state, a search differs from one in the memory of
the program only at occurrences that a breakpoint lies in, and the imports of the modules that
the program holds are collected as they are there if no breakpoint is set in what is read. -/
theorem inspection_faithful {b : Build} {σ : Type*} {exec : Exec b σ} {starts : Set (LPVOID b)}
    {tid : DWORD} {ans : Call b → Debugger b → BreakpointAction} {d₀ : Debugger b} {data : σ}
    {installs : List (Install b)} (hfresh : Fresh tid d₀)
    (hproper : ∀ x ∈ installs, x.Proper starts)
    (hdistinct : (installs.map Install.address).Nodup)
    (hprogram : ∀ n, WellBehaved exec starts ((Bare.next exec)^[n]
      ⟨d₀.os.memory.bytes, Machine.cpu tid ⟨d₀, data⟩⟩)) :
    let s : Bare b σ := ⟨d₀.os.memory.bytes, Machine.cpu tid ⟨d₀, data⟩⟩
    let step := Machine.step exec (answering ans) tid
    ∃ f : ℕ → ℕ, f 0 = 0 ∧ (∀ k, f (k + 1) = f k ∨ f (k + 1) = f k + 1) ∧ ∀ k,
      let m' : Machine b σ := step^[k] ⟨installs.foldl Install.run d₀, data⟩
      let s' := (Bare.next exec)^[f k] s
      (∀ (t : PageTable b) (pattern : ByteVector b), pattern.bytes ≠ [] → ∃ found found₀,
        Yields (fun n => (t.holding m'.dbg.os.memory.bytes).space.searchInMemory n pattern) found ∧
        Yields (fun n => (t.holding s'.memory).space.searchInMemory n pattern) found₀ ∧
        (∀ a, (∀ i < pattern.bytes.length, a + BitVec.ofNat _ i ∉ m'.dbg.breakpoints) →
          (a ∈ found ↔ a ∈ found₀)) ∧
        (int3 ∉ pattern.bytes → ∀ a, a ∈ found ↔
          a ∈ found₀ ∧ ∀ i < pattern.bytes.length, ¬ m'.dbg.Armed (a + BitVec.ofNat _ i))) ∧
      ∀ (mods : List (LoadedModule b)) (P : Psapi b) (stack : ℕ → HMODULE b) (hProcess_ : HANDLE),
        hProcess_ ≠ 0 → P.refuses = false → P.modules = mods.map (·.image.base) →
        mods.length ≤ 1024 →
        (∀ M ∈ mods, M.image.memory.bytes = s'.memory ∧
          M.image.memory.readable = m'.dbg.os.memory.readable) →
        (∀ M ∈ mods, ∀ a ∈ M.footprint, a ∉ m'.dbg.breakpoints) →
        Yields (fun n => collect n m'.dbg.os.memory P stack hProcess_)
          (true, ⟨mods.flatMap (fun M => M.records (some (P.fileName M.image.base)))⟩) := by
  intro s step
  have hinstalled := (hfresh.installed (hprogram 0).int3).runAll hproper hdistinct
    (fun x _ huse => by
      rcases huse with hsw | ⟨i, hi⟩
      · exact hsw
      · cases hi)
  have hsim := machine_simulates exec starts tid ans
  have hrel := hinstalled.related hprogram
  let m : Machine b σ := ⟨installs.foldl Install.run d₀, data⟩
  refine ⟨schedule step (Bare.next exec) (Related exec starts tid) m s, rfl,
    schedule_succ m s, fun k => ?_⟩
  have hmatches := (hsim.schedule hrel k).matches_bare
  refine ⟨fun t pattern hne => hmatches.search t hne, ?_⟩
  intro mods P stack hProcess_ hprocess hok hmods hle hheld hclear
  exact hmatches.collect hprocess hok hmods hle hheld hclear

/-- A program that jumps between 0 and 1 and counts, with an int3 at 0: a search for its
code finds all of it but the place of the int3. -/
theorem inspection_faithful_toggle :
    let exec : Exec .x64 ℕ := fun _ c => ⟨⟨if c.Ip = 0 then 1 else 0, c.EFlags, c.data + 1⟩, []⟩
    let ans : Call .x64 → Debugger .x64 → BreakpointAction := fun _ _ => .RESTORE
    let d₀ : Debugger .x64 := new (.ofCode (fun _ => 0x90) [7])
    let m : Machine .x64 ℕ := ⟨(Install.software 0).run d₀, 0⟩
    let s : Bare .x64 ℕ := ⟨d₀.os.memory.bytes, Machine.cpu 7 ⟨d₀, 0⟩⟩
    let pattern : ByteVector .x64 := ⟨[0x90], by decide⟩
    ∀ (k : ℕ) (t : PageTable .x64), ∃ j found found₀,
      let m' := (Machine.step exec (answering ans) 7)^[k] m
      let s' := (Bare.next exec)^[j] s
      Yields (fun n => (t.holding m'.dbg.os.memory.bytes).space.searchInMemory n pattern) found ∧
      Yields (fun n => (t.holding s'.memory).space.searchInMemory n pattern) found₀ ∧
      ∀ a, a ∈ found ↔ a ∈ found₀ ∧ ∀ i < 1, ¬ m'.dbg.Armed (a + BitVec.ofNat _ i) := by
  intro exec ans d₀ m s pattern k t
  have hrun : ∀ n, ((Bare.next exec)^[n] s).memory = (fun _ => 0x90) ∧
      ((Bare.next exec)^[n] s).cpu.EFlags = 0 ∧
      ((Bare.next exec)^[n] s).cpu.Ip ∈ ({0, 1} : Set (LPVOID .x64)) := by
    intro n
    induction n with
    | zero =>
      have hflags : (0 : DWORD) &&& ~~~0x100 = 0 := by decide
      exact ⟨rfl, hflags, Set.mem_insert _ _⟩
    | succ n ih =>
      rw [Function.iterate_succ_apply']
      refine ⟨ih.1, ih.2.1, ?_⟩
      simp only [Bare.next, exec]
      split_ifs
      · exact Set.mem_insert_of_mem _ rfl
      · exact Set.mem_insert _ _
  have hprogram : ∀ n, WellBehaved exec {0, 1} ((Bare.next exec)^[n] s) := by
    intro n
    obtain ⟨hmem, hflags, hip⟩ := hrun n
    refine ⟨hip, fun a _ => ?_, ?_, fun _ _ => rfl, (fun w hw => by cases hw)⟩
    · rw [hmem]
      change (0x90 : BYTE) ≠ int3
      decide
    · rw [hflags]
      rfl
  have hproper : ∀ x ∈ [Install.software 0], x.Proper ({0, 1} : Set (LPVOID .x64)) := by
    intro x hx
    rw [List.mem_singleton.mp hx]
    exact Set.mem_insert _ _
  obtain ⟨f, -, -, hall⟩ := @inspection_faithful .x64 ℕ exec {0, 1} 7 ans d₀ 0 [.software 0]
    (fresh_ofCode _ 7) hproper (List.nodup_singleton _) hprogram
  obtain ⟨found, found₀, hyields, hyields₀, -, hmem⟩ := (hall k).1 t pattern (by decide)
  exact ⟨f k, found, found₀, hyields, hyields₀, hmem (by decide)⟩

end RoboDbg
