import RoboDbg.RemoteCode

/-!
# Runs of injections

Calls of `executeRemote`, `injectDLL` and `hideDebugger` in any order, each with any of
its system calls refused, while the debuggee and others use the rest of the memory. Every
block that a successful call has placed is one region that holds what was placed, and a
call that fails leaves the pages as they were if it may free its block.
-/

namespace RoboDbg

open Loops Runs PageTable

variable {b : Build}

namespace Injection

def stop (x : Injection b) : ℕ := x.page + pagesFor x.contents.length

def base (x : Injection b) : LPVOID b := address b x.page

def Covers (x : Injection b) (p : ℕ) : Prop := x.page ≤ p ∧ p < x.stop

def region (x : Injection b) : MemoryRegion b where
  BaseAddress := x.base
  RegionSize := BitVec.ofNat _ ((x.stop - x.page) * 0x1000)
  State := MEM_COMMIT
  Protect := x.flProtect
  Kind := MEM_PRIVATE

/-- Code that a thread starts in, or a path with its terminator that a thread gets as its
parameter. -/
def Launched (x : Injection b) : Prop :=
  (x.flProtect = PAGE_EXECUTE_READWRITE ∧ x.thread = ⟨x.base, 0⟩ ∧ x.contents ≠ []) ∨
    (x.flProtect = PAGE_READWRITE ∧ x.thread.lpParameter = x.base ∧
      ∃ path, x.contents = path ++ [0])

theorem Launched.contents_ne (x : Injection b) (h : x.Launched) : x.contents ≠ [] := by
  rcases h with ⟨-, -, hne⟩ | ⟨-, -, path, hpath⟩
  · exact hne
  · rw [hpath]
    simp

def Placed (x : Injection b) (t : PageTable b) : Prop :=
  t.Block x.page x.stop x.flProtect x.contents

end Injection

namespace Remote

structure Good (s : Remote b) : Prop where
  well : s.table.WellAllocated
  placed : ∀ x ∈ s.injected, x.Placed s.table
  launched : ∀ x ∈ s.injected, x.Launched
  distinct : (s.injected.map (·.page)).Nodup

/-- Between the call that allocates the pages from `i` to `k` and the last call of a
function that has found the state `s₀`. -/
structure Holds (s₀ s : Remote b) (i k : ℕ) (flProtect : DWORD) (contents : List BYTE) :
    Prop where
  good : s.Good
  block : s.table.Block i k flProtect contents
  new : ∀ x ∈ s.injected, x.page ≠ i
  was : s₀.table.FreeRange i k
  first : s.table.first = s₀.table.first
  threads : s.threads = s₀.threads
  injected : s.injected = s₀.injected
  page : ∀ p, ¬ (i ≤ p ∧ p < k) → s.table.page p = s₀.table.page p
  bytes : ∀ a, ¬ (i ≤ pageOf a ∧ pageOf a < k) → s.table.bytes a = s₀.table.bytes a

structure Failed (ans : Answers b) (s₀ s : Remote b) : Prop where
  good : s.Good
  first : s.table.first = s₀.table.first
  threads : s.threads = s₀.threads
  injected : s.injected = s₀.injected
  page : ans.frees = true → ∀ p, s.table.page p = s₀.table.page p
  bytes : ∀ a, s₀.table.page (pageOf a) ≠ .free → s.table.bytes a = s₀.table.bytes a

structure Succeeded (x : Injection b) (s₀ s : Remote b) : Prop where
  good : s.Good
  first : s.table.first = s₀.table.first
  threads : s.threads = s₀.threads ++ [x.thread]
  injected : s.injected = s₀.injected ++ [x]
  was : s₀.table.FreeRange x.page x.stop
  page : ∀ p, ¬ x.Covers p → s.table.page p = s₀.table.page p
  bytes : ∀ a, s₀.table.page (pageOf a) ≠ .free → s.table.bytes a = s₀.table.bytes a

theorem Good.of_none {s : Remote b} (hwell : s.table.WellAllocated) (hnone : s.injected = []) :
    s.Good := by
  refine ⟨hwell, ?_, ?_, ?_⟩
  all_goals simp [hnone]

/-! ## The calls of one function -/

theorem Good.refused {s : Remote b} (h : s.Good) (ans : Answers b) : Failed ans s s :=
  ⟨h, rfl, rfl, rfl, fun _ _ => rfl, fun _ _ => rfl⟩

theorem Good.alloc {s s' : Remote b} (h : s.Good) {ans : Answers b} {size : ℕ}
    {flProtect : DWORD} {base : LPVOID b}
    (ha : s.virtualAllocEx ans size flProtect = some (base, s')) :
    base = address b ans.place ∧
      size ≤ (ans.place + pagesFor size - ans.place) * 0x1000 ∧
      Holds s s' ans.place (ans.place + pagesFor size) flProtect [] := by
  unfold virtualAllocEx at ha
  split_ifs at ha
  obtain ⟨⟨base', t'⟩, halloc, heq⟩ := Option.map_eq_some_iff.mp ha
  obtain ⟨rfl, rfl⟩ := Prod.mk.inj heq
  obtain ⟨hfree, hsize, rfl, rfl⟩ := VirtualAllocEx_eq_some halloc
  refine ⟨rfl, hsize, ⟨commit_wellAllocated hfree flProtect h.well, fun x hx => ?_, h.launched,
    h.distinct⟩, commit_block hfree flProtect h.well, fun x hx => ?_, hfree, rfl, rfl, rfl,
    fun p hp => s.table.commit_page_out flProtect hp, fun a ha => if_neg ha⟩
  · exact Block.commit hfree flProtect (h.placed x hx)
  · exact Block.page_ne_of_free hfree (h.placed x hx)

theorem writeProcessMemory_eq_some {s s' : Remote b} {ans : Answers b} {a : LPVOID b}
    {xs : List BYTE} (h : s.writeProcessMemory ans a xs = some s') :
    ∃ t', s.table.WriteProcessMemory a xs = some t' ∧ s' = { s with table := t' } := by
  unfold writeProcessMemory at h
  split_ifs at h
  obtain ⟨t', hwrite, rfl⟩ := Option.map_eq_some_iff.mp h
  exact ⟨t', hwrite, rfl⟩

namespace Holds

variable {s₀ s s' : Remote b} {ans : Answers b} {i k : ℕ} {flProtect : DWORD}
  {contents : List BYTE}

theorem write (h : Holds s₀ s i k flProtect contents) {xs : List BYTE}
    (hfits : xs.length ≤ (k - i) * 0x1000)
    (hw : s.writeProcessMemory ans (address b i) xs = some s') :
    Holds s₀ s' i k flProtect xs := by
  obtain ⟨t', hwrite, rfl⟩ := writeProcessMemory_eq_some hw
  obtain ⟨hfirst, hpage, hwell, hbytes⟩ := WriteProcessMemory_frame hwrite
  have hinside : ∀ j < xs.length, i ≤ pageOf (address b i + BitVec.ofNat _ j) ∧
      pageOf (address b i + BitVec.ofNat _ j) < k :=
    fun j hj => pageOf_add h.block.limit (hj.trans_le hfits)
  refine ⟨⟨hwell h.good.well, fun x hx => ?_, h.good.launched, h.good.distinct⟩,
    h.block.write hfits hwrite, h.new, h.was, hfirst.trans h.first, h.threads, h.injected,
    fun p hp => (congrFun hpage p).trans (h.page p hp), fun a ha => ?_⟩
  · refine (h.good.placed x hx).written (fun j hj => ?_) hwrite
    exact h.block.apart (h.good.placed x hx) (h.new x hx).symm (hinside j hj).1 (hinside j hj).2
  · refine (hbytes a ?_).trans (h.bytes a ha)
    rintro j hj rfl
    exact ha (hinside j hj)

theorem free_bytes (h : Holds s₀ s i k flProtect contents) {a : LPVOID b}
    (ha : s₀.table.page (pageOf a) ≠ .free) : s.table.bytes a = s₀.table.bytes a :=
  h.bytes a (fun hc => ha (h.was.free _ hc.1 hc.2))

theorem failed (h : Holds s₀ s i k flProtect contents) :
    Failed ans s₀ (s.virtualFreeEx ans (address b i)) := by
  unfold virtualFreeEx
  split_ifs with hfrees
  · refine ⟨⟨VirtualFreeEx_wellAllocated h.good.well _, fun x hx => ?_, h.good.launched,
      h.good.distinct⟩, h.first, h.threads, h.injected, fun _ p => ?_, fun a ha => h.free_bytes ha⟩
    · refine (h.good.placed x hx).release (fun heq => h.new x hx ?_)
      have hx' := (h.good.placed x hx)
      exact (address_inj (t := s.table) (h.block.lt.le.trans h.block.limit)
        (hx'.lt.le.trans hx'.limit) heq).symm
    · rw [h.block.release_page p]
      split_ifs with hin
      · exact (h.was.free p hin.1 hin.2).symm
      · exact h.page p hin
  · exact ⟨h.good, h.first, h.threads, h.injected, fun hc => absurd hc hfrees,
      fun a ha => h.free_bytes ha⟩

theorem started {x : Injection b} (h : Holds s₀ s x.page x.stop x.flProtect x.contents)
    (hx : x.Launched) : Succeeded x s₀ (s.started x) := by
  refine ⟨⟨h.good.well, fun y hy => ?_, fun y hy => ?_, ?_⟩, h.first, ?_, ?_, h.was, h.page,
    fun a ha => h.free_bytes ha⟩
  · rcases List.mem_append.mp hy with hy | hy
    · exact h.good.placed y hy
    · rw [List.mem_singleton.mp hy]
      exact h.block
  · rcases List.mem_append.mp hy with hy | hy
    · exact h.good.launched y hy
    · rw [List.mem_singleton.mp hy]
      exact hx
  · change ((s.injected ++ [x]).map (·.page)).Nodup
    rw [List.map_append, List.map_cons, List.map_nil, List.nodup_append]
    refine ⟨h.good.distinct, List.nodup_singleton _, fun p hp q hq => ?_⟩
    obtain ⟨y, hy, rfl⟩ := List.mem_map.mp hp
    rw [List.mem_singleton.mp hq]
    exact h.new y hy
  · rw [← h.threads]
    rfl
  · rw [← h.injected]
    rfl

end Holds

theorem Failed.close {ans : Answers b} {s₀ s : Remote b} (h : Failed ans s₀ s) :
    Failed ans s₀ s.closeHandle :=
  ⟨⟨h.good.well, h.good.placed, h.good.launched, h.good.distinct⟩, h.first, h.threads, h.injected,
    h.page, h.bytes⟩

/-! ## The functions -/

theorem executeRemote_spec {s : Remote b} (h : s.Good) (shellcode : List BYTE) (ans : Answers b) :
    let r := s.executeRemote shellcode ans
    (r.2 = false ∧ Failed ans s r.1) ∨
      (r.2 = true ∧ ∃ x, x.contents = shellcode ∧ Succeeded x s r.1) := by
  unfold executeRemote
  by_cases hempty : shellcode.isEmpty = true
  · rw [if_pos hempty]
    exact Or.inl ⟨rfl, h.refused ans⟩
  rw [if_neg hempty]
  cases ha : s.virtualAllocEx ans shellcode.length PAGE_EXECUTE_READWRITE with
  | none => exact Or.inl ⟨rfl, h.refused ans⟩
  | some r =>
    obtain ⟨remoteMem, s₁⟩ := r
    obtain ⟨rfl, hfits, hholds⟩ := h.alloc ha
    dsimp only
    cases hw : s₁.writeProcessMemory ans (address b ans.place) shellcode with
    | none => exact Or.inl ⟨rfl, hholds.failed⟩
    | some s₂ =>
      have hholds₂ := hholds.write hfits hw
      have hne : shellcode ≠ [] := by simpa using hempty
      let x : Injection b := ⟨ans.place, shellcode, PAGE_EXECUTE_READWRITE,
        ⟨address b ans.place, 0⟩⟩
      have hx : x.Launched := Or.inl ⟨rfl, rfl, hne⟩
      dsimp only
      split_ifs
      · exact Or.inl ⟨rfl, hholds₂.failed⟩
      · exact Or.inr ⟨rfl, x, rfl, Holds.started hholds₂ hx⟩

theorem injectDLL_spec {s : Remote b} (h : s.Good) (hProcess : HANDLE) (dllPath : Text)
    (ans : Answers b) :
    let r := s.injectDLL hProcess dllPath ans
    (r.2 = 0 ∧ Failed ans s r.1) ∨
      ∃ x, r.2 = x.base ∧ x.contents = dllPath ++ [0] ∧ Succeeded x s r.1 := by
  unfold injectDLL
  by_cases hnull : hProcess = 0
  · rw [if_pos hnull]
    exact Or.inl ⟨rfl, h.refused ans⟩
  rw [if_neg hnull]
  dsimp only
  cases ha : s.virtualAllocEx ans (dllPath ++ [0]).length PAGE_READWRITE with
  | none => exact Or.inl ⟨rfl, (h.refused ans).close⟩
  | some r =>
    obtain ⟨pDllPath, s₁⟩ := r
    obtain ⟨rfl, hfits, hholds⟩ := h.alloc ha
    dsimp only
    cases hw : s₁.writeProcessMemory ans (address b ans.place) (dllPath ++ [0]) with
    | none => exact Or.inl ⟨rfl, hholds.failed.close⟩
    | some s₂ =>
      have hholds₂ := hholds.write hfits hw
      let x : Injection b := ⟨ans.place, dllPath ++ [0], PAGE_READWRITE,
        ⟨ans.loadLibraryA, address b ans.place⟩⟩
      have hx : x.Launched := Or.inr ⟨rfl, rfl, dllPath, rfl⟩
      dsimp only
      split_ifs
      · exact Or.inl ⟨rfl, hholds₂.failed.close⟩
      · exact Or.inl ⟨rfl, hholds₂.failed.close⟩
      · exact Or.inr ⟨x, rfl, rfl, Holds.started hholds₂ hx⟩

end Remote

/-! ## Runs -/

/-- The calls, and what others do to the pages in between. -/
inductive RemoteTurn (b : Build)
  | executeRemote (shellcode : List BYTE) (ans : Answers b)
  | injectDLL (hProcess : HANDLE) (dllPath : Text) (ans : Answers b)
  | hideDebugger (PebBaseAddress : Option (LPVOID b)) (ans : Answers b)
  | others (t : PageTable b)

namespace Remote

def turn (s : Remote b) : RemoteTurn b → Remote b
  | .executeRemote shellcode ans => (s.executeRemote shellcode ans).1
  | .injectDLL hProcess dllPath ans => (s.injectDLL hProcess dllPath ans).1
  | .hideDebugger PebBaseAddress ans => (s.hideDebugger PebBaseAddress ans).1
  | .others t => { s with table := t }

/-- What a call that reports success has been given to place. -/
def reports (s : Remote b) : RemoteTurn b → List (List BYTE)
  | .executeRemote shellcode ans => if (s.executeRemote shellcode ans).2 then [shellcode] else []
  | .injectDLL hProcess dllPath ans =>
    if (s.injectDLL hProcess dllPath ans).2 ≠ 0 then [dllPath ++ [0]] else []
  | .hideDebugger _ _ => []
  | .others _ => []

/-- The blocks are left alone by the turns that are no injections. -/
def Spares (s : Remote b) : RemoteTurn b → Prop
  | .executeRemote _ _ => True
  | .injectDLL _ _ _ => True
  | .hideDebugger PebBaseAddress _ =>
    ∀ peb ∈ PebBaseAddress, ∀ x ∈ s.injected, ¬ x.Covers (pageOf (peb + 2))
  | .others t => t.WellAllocated ∧ t.first = s.table.first ∧ t.limit = s.table.limit ∧
    ∀ x ∈ s.injected, (∀ p, x.Covers p → t.page p = s.table.page p) ∧
      (∀ p < s.table.limit, t.page p ≠ .free → (t.page p).AllocationBase = x.base → x.Covers p) ∧
      ∀ a, x.Covers (pageOf a) → t.bytes a = s.table.bytes a

def Step (s : Remote b) (turn : RemoteTurn b × List (List BYTE)) (s' : Remote b) : Prop :=
  s.Spares turn.1 ∧ turn.2 = s.reports turn.1 ∧ s' = s.turn turn.1

/-- What a stretch of a run adds to the record. -/
structure Adds (new : List (Injection b)) (s s' : Remote b) : Prop where
  good : s'.Good
  first : s'.table.first = s.table.first
  injected : s'.injected = s.injected ++ new
  threads : s'.threads = s.threads ++ new.map (·.thread)

namespace Adds

variable {s s' s'' : Remote b} {new new' : List (Injection b)} {ans : Answers b}

theorem trans (h : Adds new s s') (h' : Adds new' s' s'') : Adds (new ++ new') s s'' := by
  refine ⟨h'.good, h'.first.trans h.first, ?_, ?_⟩
  · rw [h'.injected, h.injected, List.append_assoc]
  · rw [h'.threads, h.threads, List.map_append, List.append_assoc]

theorem of_failed (h : Failed ans s s') : Adds [] s s' :=
  ⟨h.good, h.first, by rw [h.injected, List.append_nil], by rw [h.threads]; simp⟩

theorem of_succeeded {x : Injection b} (h : Succeeded x s s') : Adds [x] s s' :=
  ⟨h.good, h.first, h.injected, h.threads⟩

end Adds

def Frees : RemoteTurn b → Prop
  | .executeRemote _ ans => ans.frees = true
  | .injectDLL _ _ ans => ans.frees = true
  | .hideDebugger _ _ => True
  | .others _ => False

/-- The byte is the one that `hideDebugger` clears. -/
def Clears (a : LPVOID b) : RemoteTurn b → Prop
  | .executeRemote _ _ => False
  | .injectDLL _ _ _ => False
  | .hideDebugger PebBaseAddress _ => ∃ peb ∈ PebBaseAddress, a = peb + 2
  | .others _ => False

/-- What a stretch of a run leaves behind besides the bytes of `cleared`. -/
structure Tidy (new : List (Injection b)) (cleared : LPVOID b → Prop) (s s' : Remote b) :
    Prop where
  was : ∀ p, (∃ x ∈ new, x.Covers p) → s.table.page p = .free
  page : ∀ p, (¬ ∃ x ∈ new, x.Covers p) → s'.table.page p = s.table.page p
  bytes : ∀ a, s.table.page (pageOf a) ≠ .free → ¬ cleared a → s'.table.bytes a = s.table.bytes a

namespace Tidy

variable {s s' s'' : Remote b} {new new' : List (Injection b)} {cleared cleared' : LPVOID b → Prop}

theorem trans (h : Tidy new cleared s s') (h' : Tidy new' cleared' s' s'') :
    Tidy (new ++ new') (fun a => cleared a ∨ cleared' a) s s'' := by
  refine ⟨?_, fun p hout => ?_, fun a ha hc => ?_⟩
  · rintro p ⟨x, hx, hcovers⟩
    by_cases hnew : ∃ y ∈ new, y.Covers p
    · exact h.was p hnew
    · have hx' : x ∈ new' := (List.mem_append.mp hx).resolve_left (fun hx => hnew ⟨x, hx, hcovers⟩)
      rw [← h.page p hnew]
      exact h'.was p ⟨x, hx', hcovers⟩
  · rw [h'.page p, h.page p]
    · rintro ⟨x, hx, hcovers⟩
      exact hout ⟨x, List.mem_append_left _ hx, hcovers⟩
    · rintro ⟨x, hx, hcovers⟩
      exact hout ⟨x, List.mem_append_right _ hx, hcovers⟩
  · obtain ⟨hc, hc'⟩ := not_or.mp hc
    have hsame := h.page (pageOf a) (fun hcovered => ha (h.was _ hcovered))
    rw [h'.bytes a (by rwa [hsame]) hc', h.bytes a ha hc]

theorem of_failed {ans : Answers b} (h : Failed ans s s') (hfrees : ans.frees = true) :
    Tidy [] cleared s s' :=
  ⟨fun _ ⟨_, hx, _⟩ => absurd hx List.not_mem_nil, fun p _ => h.page hfrees p,
    fun a ha _ => h.bytes a ha⟩

theorem of_succeeded {x : Injection b} (h : Succeeded x s s') : Tidy [x] cleared s s' := by
  refine ⟨?_, fun p hout => h.page p ?_, fun a ha _ => h.bytes a ha⟩
  · rintro p ⟨y, hy, hcovers⟩
    obtain rfl := List.mem_singleton.mp hy
    exact h.was.free p hcovers.1 hcovers.2
  · exact fun hcovers => hout ⟨x, List.mem_cons_self, hcovers⟩

end Tidy

/-- What one turn, or the turns of a run, come to. -/
structure Comes (new : List (Injection b)) (reported : List (List BYTE)) (frees : Prop)
    (cleared : LPVOID b → Prop) (s s' : Remote b) : Prop where
  adds : Adds new s s'
  contents : new.map (·.contents) = reported
  tidy : frees → Tidy new cleared s s'

variable {s s' : Remote b}

theorem Succeeded.base_ne {x : Injection b} (h : Succeeded x s s') (hlow : 0 < s.table.first) :
    x.base ≠ 0 := by
  have hmem : x ∈ s'.injected := by
    rw [h.injected]
    exact List.mem_append_right _ List.mem_cons_self
  have hblock := h.good.placed x hmem
  have hpage : 0 < x.page := by
    have hle := hblock.first
    rw [h.first] at hle
    exact hlow.trans_le hle
  intro hzero
  have hval : x.base.toNat = 0 := by
    rw [hzero]
    rfl
  have hbase : x.base.toNat = x.page * 0x1000 :=
    s'.table.address_toNat (hblock.lt.le.trans hblock.limit)
  rw [hbase] at hval
  omega

namespace Comes

variable {s'' : Remote b} {new new' : List (Injection b)} {reported reported' : List (List BYTE)}
  {frees frees' : Prop} {cleared cleared' : LPVOID b → Prop} {ans : Answers b}

theorem of_failed (h : Failed ans s s') : Comes [] [] (ans.frees = true) cleared s s' :=
  ⟨.of_failed h, rfl, fun hfrees => .of_failed h hfrees⟩

theorem of_succeeded {x : Injection b} (h : Succeeded x s s') :
    Comes [x] [x.contents] frees cleared s s' := ⟨.of_succeeded h, rfl, fun _ => .of_succeeded h⟩

theorem refl (h : s.Good) : Comes [] [] frees cleared s s :=
  ⟨.of_failed (h.refused ⟨0, false, false, false, true, 0⟩), rfl,
    fun _ => .of_failed (h.refused ⟨0, false, false, false, true, 0⟩) rfl⟩

theorem trans (h : Comes new reported frees cleared s s')
    (h' : Comes new' reported' frees' cleared' s' s'') :
    Comes (new ++ new') (reported ++ reported') (frees ∧ frees')
      (fun a => cleared a ∨ cleared' a) s s'' := by
  refine ⟨h.adds.trans h'.adds, ?_, fun ⟨hfrees, hfrees'⟩ => (h.tidy hfrees).trans (h'.tidy hfrees')⟩
  rw [List.map_append, h.contents, h'.contents]

end Comes

theorem Good.hide (h : s.Good) (PebBaseAddress : Option (LPVOID b)) (ans : Answers b)
    (hspares : s.Spares (.hideDebugger PebBaseAddress ans)) {frees : Prop} :
    Comes [] [] frees (fun a => ∃ peb ∈ PebBaseAddress, a = peb + 2) s
      (s.hideDebugger PebBaseAddress ans).1 := by
  unfold hideDebugger
  cases PebBaseAddress with
  | none => exact .refl h
  | some peb =>
    dsimp only
    cases hw : s.writeProcessMemory ans (peb + 2) [0] with
    | none => exact .refl h
    | some s' =>
      obtain ⟨t', hwrite, rfl⟩ := writeProcessMemory_eq_some hw
      obtain ⟨hfirst, hpage, hwell, hbytes⟩ := WriteProcessMemory_frame hwrite
      have hbyte : ∀ j < [(0 : BYTE)].length, peb + 2 + BitVec.ofNat _ j = peb + 2 := by
        intro j hj
        obtain rfl : j = 0 := Nat.lt_one_iff.mp hj
        exact BitVec.add_zero _
      have hadds : Adds [] s { s with table := t' } := by
        refine ⟨⟨hwell h.well, fun x hx => ?_, h.launched, h.distinct⟩, hfirst,
          (List.append_nil _).symm, (List.append_nil _).symm⟩
        refine (h.placed x hx).written (fun j hj => ?_) hwrite
        rw [hbyte j hj]
        exact hspares peb rfl x hx
      refine ⟨hadds, rfl, fun _ => ⟨?_, fun p _ => congrFun hpage p, fun a _ hc => hbytes a ?_⟩⟩
      · rintro p ⟨x, hx, -⟩
        exact absurd hx List.not_mem_nil
      · rintro j hj rfl
        exact hc ⟨peb, rfl, hbyte j hj⟩

theorem Good.others (h : s.Good) {t : PageTable b} (hspares : s.Spares (.others t)) :
    Adds [] s { s with table := t } := by
  obtain ⟨hwell, hfirst, hlimit, hsame⟩ := hspares
  refine ⟨⟨hwell, fun x hx => ?_, h.launched, h.distinct⟩, hfirst, (List.append_nil _).symm,
    (List.append_nil _).symm⟩
  obtain ⟨hpage, honly, hbytes⟩ := hsame x hx
  exact (h.placed x hx).congr hfirst hlimit (fun p hi hk => hpage p ⟨hi, hk⟩) honly
    (fun a hi hk => hbytes a ⟨hi, hk⟩)

theorem Good.step (h : s.Good) (hlow : 0 < s.table.first)
    {turn : RemoteTurn b × List (List BYTE)} (hstep : s.Step turn s') :
    ∃ new, Comes new turn.2 (Frees turn.1) (fun a => Clears a turn.1) s s' := by
  obtain ⟨t, rep⟩ := turn
  obtain ⟨hspares, hrep, rfl⟩ := hstep
  dsimp only at hrep hspares ⊢
  rw [hrep]
  cases t with
  | executeRemote shellcode ans =>
    dsimp only [turn, reports]
    rcases executeRemote_spec h shellcode ans with ⟨hfalse, hfailed⟩ | ⟨htrue, x, rfl, hsucceeded⟩
    · rw [hfalse, if_neg Bool.false_ne_true]
      exact ⟨[], .of_failed hfailed⟩
    · rw [htrue, if_pos rfl]
      exact ⟨[x], .of_succeeded hsucceeded⟩
  | injectDLL hProcess dllPath ans =>
    dsimp only [turn, reports]
    rcases injectDLL_spec h hProcess dllPath ans with ⟨hzero, hfailed⟩ | ⟨x, hbase, hx, hsucceeded⟩
    · rw [if_neg (not_not.mpr hzero)]
      exact ⟨[], .of_failed hfailed⟩
    · rw [hbase, if_pos (hsucceeded.base_ne hlow), ← hx]
      exact ⟨[x], .of_succeeded hsucceeded⟩
  | hideDebugger PebBaseAddress ans => exact ⟨[], h.hide PebBaseAddress ans hspares⟩
  | others t => exact ⟨[], h.others hspares, rfl, False.elim⟩

theorem Good.run (h : s.Good) (hlow : 0 < s.table.first)
    {turns : List (RemoteTurn b × List (List BYTE))} (hrun : Run Step s turns s') :
    ∃ new, Comes new (turns.flatMap (·.2)) (∀ turn ∈ turns, Frees turn.1)
      (fun a => ∃ turn ∈ turns, Clears a turn.1) s s' := by
  induction hrun with
  | nil s => exact ⟨[], .refl h⟩
  | cons hstep _ ih =>
    obtain ⟨new, hcomes⟩ := h.step hlow hstep
    obtain ⟨new', hcomes'⟩ := ih hcomes.adds.good (hcomes.adds.first ▸ hlow)
    refine ⟨new ++ new', ?_⟩
    simpa only [List.flatMap_cons, List.forall_mem_cons, List.exists_mem_cons_iff] using
      hcomes.trans hcomes'

end Remote

/-! ## What the memory functions find -/

namespace Injection

variable {x y : Injection b} {t : PageTable b}

theorem Placed.region_eq (h : x.Placed t) : t.region x.page x.stop = x.region := by
  rw [PageTable.region, h.page x.page le_rfl h.lt]
  rfl

theorem Placed.getPageByAddress (h : x.Placed t) :
    Yields (fun n => t.space.getPageByAddress n x.base) x.region := by
  rw [← h.region_eq]
  exact getPageByAddress_of_around h.around

theorem Launched.accessible (hx : x.Launched) (i : ℕ) :
    (blockPage i x.flProtect : Page b).Accessible := by
  have hwritable : ∀ flProtect, flProtect = PAGE_EXECUTE_READWRITE ∨ flProtect = PAGE_READWRITE →
      flProtect &&& PAGE_GUARD = 0 ∧ flProtect ≠ PAGE_NOACCESS := by
    rintro flProtect (rfl | rfl) <;> decide
  refine ⟨rfl, hwritable x.flProtect ?_⟩
  rcases hx with ⟨hflags, -⟩ | ⟨hflags, -⟩
  · exact Or.inl hflags
  · exact Or.inr hflags

/-- A search for what was placed finds the block. -/
theorem Placed.searchInMemory (h : x.Placed t) (hx : x.Launched) {pattern : ByteVector b}
    (hpattern : pattern.bytes = x.contents) :
    ∃ found, Yields (fun n => t.space.searchInMemory n pattern) found ∧ x.base ∈ found := by
  have hne : pattern.bytes ≠ [] := by
    rw [hpattern]
    exact hx.contents_ne
  obtain ⟨found, hyields, -, hmem⟩ := t.exists_found hne
  have hbase : x.base.toNat = x.page * 0x1000 := t.address_toNat (h.lt.le.trans h.limit)
  have hpage : pageOf x.base = x.page := t.pageOf_address (h.lt.le.trans h.limit)
  have hpos := List.length_pos_of_ne_nil hne
  have hlast : lastPage x.base pattern.bytes.length < x.stop := by
    have hlength := h.fits
    rw [← hpattern] at hlength
    unfold lastPage
    rw [hbase]
    omega
  have hfirst := h.page x.page le_rfl h.lt
  refine ⟨found, hyields, (hmem x.base).mpr ⟨?_, ?_, hlast.trans_le h.limit, ?_,
    fun p hp hpl => ?_⟩⟩
  · rw [hpattern]
    exact h.contents
  · rw [hpage]
    exact h.first
  · rw [hpage, hfirst]
    exact hx.accessible x.page
  · rw [hpage] at hp ⊢
    rw [hfirst, h.page p hp (hpl.trans_lt hlast)]

end Injection

/-- Whatever calls are refused and whatever others do outside of the blocks: the calls that
report success have each placed one block and started one thread, in order; the blocks
share no page; and each is one region that holds what was placed, and is found by a search
for it. -/
theorem injections_stay {b : Build} {s s' : Remote b}
    {turns : List (RemoteTurn b × List (List BYTE))} (hwell : s.table.WellAllocated)
    (hlow : 0 < s.table.first) (hnone : s.injected = []) (hrun : Run Remote.Step s turns s') :
    s'.injected.map (·.contents) = turns.flatMap (·.2) ∧
    s'.threads = s.threads ++ s'.injected.map (·.thread) ∧
    s'.injected.Pairwise (fun x y => ∀ p, x.Covers p → ¬ y.Covers p) ∧
    ∀ x ∈ s'.injected, x.Launched ∧
      s'.table.memory.view x.base x.contents.length = x.contents ∧
      Yields (fun n => s'.table.space.getPageByAddress n x.base) x.region ∧
      ∀ pattern : ByteVector b, pattern.bytes = x.contents →
        ∃ found, Yields (fun n => s'.table.space.searchInMemory n pattern) found ∧
          x.base ∈ found := by
  have hgood : s.Good := .of_none hwell hnone
  obtain ⟨new, hadds, hcontents, -⟩ := hgood.run hlow hrun
  obtain rfl : s'.injected = new := by rw [hadds.injected, hnone, List.nil_append]
  refine ⟨hcontents, hadds.threads, ?_, fun x hx => ?_⟩
  · have hdistinct := List.pairwise_map.mp hadds.good.distinct
    refine hdistinct.imp_of_mem (fun {x y} hx hy hne p hp => ?_)
    exact (hadds.good.placed x hx).apart (hadds.good.placed y hy) hne hp.1 hp.2
  · have hplaced := hadds.good.placed x hx
    have hlaunched := hadds.good.launched x hx
    exact ⟨hlaunched, hplaced.contents, hplaced.getPageByAddress,
      fun pattern hpattern => hplaced.searchInMemory hlaunched hpattern⟩

theorem PageTable.WellAllocated.of_one {t : PageTable b} {i : ℕ} {flProtect : DWORD}
    (hi : i < t.limit) (hpage : ∀ p, t.page p = if p = i then blockPage i flProtect else .free) :
    t.WellAllocated := by
  intro p _ hp
  have hpi : p = i := by
    by_contra hne
    exact hp ((hpage p).trans (if_neg hne))
  subst hpi
  have hbase : (t.page p).AllocationBase = address b p := by
    rw [hpage, if_pos rfl]
    rfl
  exact ⟨p, hi, hp, hbase, hbase⟩

/-- A block is placed, and a second one is given back as its thread does not start. -/
theorem injections_stay_refused :
    let page : ℕ → Page .x64 := fun p => if p = 16 then blockPage 16 PAGE_READWRITE else .free
    let s : Remote .x64 := ⟨ofPages page (fun _ => 0) 16 32 (by decide) (by decide), [], [], 0⟩
    let placed : RemoteTurn .x64 := .executeRemote [0xC3] ⟨17, true, true, true, true, 0⟩
    let refused : RemoteTurn .x64 := .executeRemote [0x90, 0xC3] ⟨18, true, true, false, true, 0⟩
    let s' := (s.turn placed).turn refused
    s'.injected.map (·.contents) = [[0xC3]] ∧
    s'.threads = [] ++ s'.injected.map (·.thread) ∧
    s'.injected.Pairwise (fun x y => ∀ p, x.Covers p → ¬ y.Covers p) ∧
    ∀ x ∈ s'.injected, x.Launched ∧
      s'.table.memory.view x.base x.contents.length = x.contents ∧
      Yields (fun n => s'.table.space.getPageByAddress n x.base) x.region ∧
      ∀ pattern : ByteVector .x64, pattern.bytes = x.contents →
        ∃ found, Yields (fun n => s'.table.space.searchInMemory n pattern) found ∧
          x.base ∈ found := by
  intro page s placed refused s'
  have hwell : s.table.WellAllocated := .of_one (by decide) (fun _ => rfl)
  have hplaced : [[0xC3]] = s.reports placed := by decide +kernel
  have hrefused : [] = (s.turn placed).reports refused := by decide +kernel
  have hrun : Run Remote.Step s [(placed, [[0xC3]]), (refused, [])] s' :=
    .cons ⟨trivial, hplaced, rfl⟩ (.single ⟨trivial, hrefused, rfl⟩)
  exact injections_stay hwell (by decide) rfl hrun

/-- When the calls may free what they allocate, they leave no page behind but those of the
blocks that were placed, and of what was there before they change the byte that
`hideDebugger` clears and nothing else. -/
theorem failed_injections_leave_nothing {b : Build} {s s' : Remote b}
    {turns : List (RemoteTurn b × List (List BYTE))} (hwell : s.table.WellAllocated)
    (hlow : 0 < s.table.first) (hnone : s.injected = []) (hrun : Run Remote.Step s turns s')
    (hfrees : ∀ turn ∈ turns, Remote.Frees turn.1) :
    (∀ p, (∃ x ∈ s'.injected, x.Covers p) → s.table.page p = .free) ∧
    (∀ p, (¬ ∃ x ∈ s'.injected, x.Covers p) → s'.table.page p = s.table.page p) ∧
    ∀ a, s.table.page (pageOf a) ≠ .free → (¬ ∃ turn ∈ turns, Remote.Clears a turn.1) →
      s'.table.bytes a = s.table.bytes a := by
  have hgood : s.Good := .of_none hwell hnone
  obtain ⟨new, hadds, -, htidy⟩ := hgood.run hlow hrun
  obtain rfl : s'.injected = new := by rw [hadds.injected, hnone, List.nil_append]
  exact ⟨(htidy hfrees).was, (htidy hfrees).page, (htidy hfrees).bytes⟩

/-- The same turns leave one page more in use. -/
theorem failed_injections_leave_nothing_refused :
    let page : ℕ → Page .x64 := fun p => if p = 16 then blockPage 16 PAGE_READWRITE else .free
    let s : Remote .x64 := ⟨ofPages page (fun _ => 0) 16 32 (by decide) (by decide), [], [], 0⟩
    let placed : RemoteTurn .x64 := .executeRemote [0xC3] ⟨17, true, true, true, true, 0⟩
    let refused : RemoteTurn .x64 := .executeRemote [0x90, 0xC3] ⟨18, true, true, false, true, 0⟩
    let turns := [(placed, s.reports placed), (refused, (s.turn placed).reports refused)]
    let s' := (s.turn placed).turn refused
    (∀ p, (∃ x ∈ s'.injected, x.Covers p) → s.table.page p = .free) ∧
    (∀ p, (¬ ∃ x ∈ s'.injected, x.Covers p) → s'.table.page p = s.table.page p) ∧
    ∀ a, s.table.page (pageOf a) ≠ .free → (¬ ∃ turn ∈ turns, Remote.Clears a turn.1) →
      s'.table.bytes a = s.table.bytes a := by
  intro page s placed refused turns s'
  have hwell : s.table.WellAllocated := .of_one (by decide) (fun _ => rfl)
  have hrun : Run Remote.Step s turns s' :=
    .cons ⟨trivial, rfl, rfl⟩ (.single ⟨trivial, rfl, rfl⟩)
  refine failed_injections_leave_nothing hwell (by decide) rfl hrun (fun turn hturn => ?_)
  rcases List.mem_cons.mp hturn with rfl | hturn
  · rfl
  · rw [List.mem_singleton.mp hturn]
    rfl

end RoboDbg
