import Mathlib.Algebra.BigOperators.Group.List.Basic
import Mathlib.Order.Lattice

/-!
# Command lines

How a program takes its command line apart into arguments. Blanks separate arguments, a
quoted part of an argument may hold blanks, and backslashes in front of a quotation mark
escape it and each other. The program name in front follows simpler rules.

Arguments that are written behind each other as they are come back exactly if none of them
is empty or holds a blank or a quotation mark: every other mark costs a character.
-/

namespace CommandLine

variable {α : Type*}

/-- The characters that have a meaning. -/
structure Rules (α : Type*) where
  blank : α → Bool
  quote : α
  backslash : α
  /-- Two quotation marks in a quoted part stand for one; whether they end the part too. -/
  pairCloses : Bool
  backslash_ne_quote : backslash ≠ quote
  blank_quote : blank quote = false
  blank_backslash : blank backslash = false

inductive Mode
  | outside
  | quoted
  /-- Behind a quotation mark that ends the quoted part unless another one follows. -/
  | closing
deriving DecidableEq

/-- An argument of which a part has been read. The backslashes at its end wait for what
follows them. -/
structure Pending (α : Type*) where
  text : List α
  slashes : ℕ
  mode : Mode

def Pending.start : Pending α := ⟨[], 0, .outside⟩

def Mode.next : Mode → Mode
  | .outside => .outside
  | .quoted => .quoted
  | .closing => .outside

namespace Rules

variable (R : Rules α)

def flush (p : Pending α) : List α := p.text ++ List.replicate p.slashes R.backslash

/-- A quotation mark: an even number of backslashes in front of it leaves it its meaning. -/
def readQuote (p : Pending α) : Pending α :=
  match p.mode with
  | .closing => ⟨p.text ++ [R.quote], 0, if R.pairCloses then .outside else .quoted⟩
  | .quoted =>
    let text := p.text ++ List.replicate (p.slashes / 2) R.backslash
    if p.slashes % 2 = 1 then ⟨text ++ [R.quote], 0, .quoted⟩ else ⟨text, 0, .closing⟩
  | .outside =>
    let text := p.text ++ List.replicate (p.slashes / 2) R.backslash
    if p.slashes % 2 = 1 then ⟨text ++ [R.quote], 0, .outside⟩ else ⟨text, 0, .quoted⟩

section

variable [DecidableEq α]

/-- One character of an argument; `none` if the argument ends in front of it. -/
def readChar (p : Pending α) (c : α) : Option (Pending α) :=
  if c = R.quote then some (R.readQuote p)
  else if c = R.backslash then some ⟨p.text, p.slashes + 1, p.mode.next⟩
  else if R.blank c ∧ p.mode ≠ .quoted then none
  else some ⟨R.flush p ++ [c], 0, p.mode.next⟩

/-- The arguments in the rest of a command line, from within one or from between two. -/
def arguments : Option (Pending α) → List α → List (List α)
  | none, [] => []
  | some p, [] => [R.flush p]
  | none, c :: cs =>
    if R.blank c then arguments none cs else arguments (R.readChar .start c) cs
  | some p, c :: cs =>
    match R.readChar p c with
    | none => R.flush p :: arguments none cs
    | some p' => arguments (some p') cs

/-- The program name and what follows it; quotation marks are left out. -/
def programName : Bool → List α → List α × List α
  | _, [] => ([], [])
  | quoted, c :: cs =>
    if c = R.quote then programName (!quoted) cs
    else if R.blank c ∧ quoted = false then ([], c :: cs)
    else
      let r := programName quoted cs
      (c :: r.1, r.2)

def argv (cmdLine : List α) : List (List α) :=
  let r := R.programName false cmdLine
  r.1 :: R.arguments none r.2

end

def Plain (arg : List α) : Prop := arg ≠ [] ∧ ∀ c ∈ arg, R.blank c = false ∧ c ≠ R.quote

end Rules

/-! ## What marks cost -/

/-- What arguments take in a command line at least, each with a blank in front. -/
def cost : List (List α) → ℕ
  | [] => 0
  | a :: args => a.length + 1 + cost args

def Pending.weight (p : Pending α) : ℕ := p.text.length + p.slashes + 1

/-- Between two arguments a blank has been read already. -/
def weight : Option (Pending α) → ℕ
  | none => 1
  | some p => p.weight

def notClosing : Option (Pending α) → Prop
  | none => True
  | some p => p.mode ≠ .closing

namespace Rules

variable {R : Rules α} {p p' : Pending α} {c : α}

theorem length_flush (R : Rules α) (p : Pending α) : (R.flush p).length + 1 = p.weight := by
  rw [flush, List.length_append, List.length_replicate, Pending.weight]

theorem weight_readQuote_of_notClosing (R : Rules α) (h : p.mode ≠ .closing) :
    (R.readQuote p).weight ≤ p.weight := by
  unfold readQuote Pending.weight
  split
  · next hmode => exact absurd hmode h
  · split_ifs <;> simp only [List.length_append, List.length_singleton, List.length_replicate] <;>
      omega
  · split_ifs <;> simp only [List.length_append, List.length_singleton, List.length_replicate] <;>
      omega

theorem weight_readQuote_le (R : Rules α) (p : Pending α) :
    (R.readQuote p).weight ≤ p.weight + 1 := by
  by_cases h : p.mode = .closing
  · unfold readQuote Pending.weight
    rw [h]
    simp only [List.length_append, List.length_singleton]
    omega
  · exact (weight_readQuote_of_notClosing R h).trans (Nat.le_succ _)

theorem Mode.next_ne_closing (m : Mode) : m.next ≠ .closing := by
  cases m <;> decide

variable [DecidableEq α]

theorem readChar_quote (R : Rules α) (p : Pending α) :
    R.readChar p R.quote = some (R.readQuote p) :=
  if_pos rfl

theorem readChar_cases (R : Rules α) (p : Pending α) (hc : c ≠ R.quote) :
    (R.readChar p c = none ∧ R.blank c = true ∧ p.mode ≠ .quoted) ∨
    (c = R.backslash ∧ R.readChar p c = some ⟨p.text, p.slashes + 1, p.mode.next⟩) ∨
    (c ≠ R.backslash ∧ ¬ (R.blank c = true ∧ p.mode ≠ .quoted) ∧
      R.readChar p c = some ⟨R.flush p ++ [c], 0, p.mode.next⟩) := by
  unfold readChar
  rw [if_neg hc]
  split_ifs with hslash hblank
  · exact Or.inr (Or.inl ⟨hslash, rfl⟩)
  · exact Or.inl ⟨rfl, hblank⟩
  · exact Or.inr (Or.inr ⟨hslash, hblank, rfl⟩)

theorem weight_readChar_le (h : R.readChar p c = some p') : p'.weight ≤ p.weight + 1 := by
  by_cases hc : c = R.quote
  · rw [hc, readChar_quote] at h
    obtain rfl := Option.some.inj h
    exact weight_readQuote_le R p
  · rcases readChar_cases R p hc with ⟨he, -⟩ | ⟨-, he⟩ | ⟨-, -, he⟩
    · rw [he] at h
      cases h
    · rw [he] at h
      obtain rfl := Option.some.inj h
      simp only [Pending.weight]
      omega
    · rw [he] at h
      obtain rfl := Option.some.inj h
      have hlen := length_flush R p
      simp only [Pending.weight, List.length_append, List.length_singleton] at hlen ⊢
      omega

theorem weight_readChar_quote (hc : c = R.quote) (hmode : p.mode ≠ .closing)
    (h : R.readChar p c = some p') : p'.weight ≤ p.weight := by
  rw [hc, readChar_quote] at h
  obtain rfl := Option.some.inj h
  exact weight_readQuote_of_notClosing R hmode

theorem notClosing_readChar (hc : c ≠ R.quote) (h : R.readChar p c = some p') :
    p'.mode ≠ .closing := by
  rcases readChar_cases R p hc with ⟨he, -⟩ | ⟨-, he⟩ | ⟨-, -, he⟩
  · rw [he] at h
    cases h
  · rw [he] at h
    obtain rfl := Option.some.inj h
    exact Mode.next_ne_closing _
  · rw [he] at h
    obtain rfl := Option.some.inj h
    exact Mode.next_ne_closing _

theorem readChar_start (R : Rules α) (hc : R.blank c = false) :
    ∃ p', R.readChar .start c = some p' := by
  by_cases hquote : c = R.quote
  · rw [hquote, readChar_quote]
    exact ⟨_, rfl⟩
  · rcases readChar_cases R .start hquote with ⟨-, hblank, -⟩ | ⟨-, he⟩ | ⟨-, -, he⟩
    · rw [hc] at hblank
      cases hblank
    · exact ⟨_, he⟩
    · exact ⟨_, he⟩

theorem arguments_blank (h : R.blank c = true) (cs : List α) :
    R.arguments none (c :: cs) = R.arguments none cs := by
  rw [arguments, if_pos h]

theorem arguments_begin (h : R.blank c = false) (cs : List α) :
    R.arguments none (c :: cs) = R.arguments (R.readChar .start c) cs := by
  rw [arguments, if_neg (by simp [h])]

theorem arguments_end (h : R.readChar p c = none) (cs : List α) :
    R.arguments (some p) (c :: cs) = R.flush p :: R.arguments none cs := by
  rw [arguments, h]

theorem arguments_more (h : R.readChar p c = some p') (cs : List α) :
    R.arguments (some p) (c :: cs) = R.arguments (some p') cs := by
  rw [arguments, h]

/-- What one character does: an argument may end at it, which takes `k`. A quotation mark takes
more than it leaves, unless it may be the second one of a pair. -/
theorem arguments_step (R : Rules α) (s : Option (Pending α)) (c : α) (cs : List α) :
    ∃ s' k, cost (R.arguments s (c :: cs)) = k + cost (R.arguments s' cs) ∧
      k + weight s' ≤ weight s + 1 ∧
      (c = R.quote → notClosing s → k + weight s' ≤ weight s) ∧
      (c ≠ R.quote → notClosing s') := by
  cases s with
  | none =>
    cases hblank : R.blank c with
    | true =>
      refine ⟨none, 0, by rw [arguments_blank hblank, Nat.zero_add], by omega, ?_, fun _ => trivial⟩
      rintro rfl
      rw [R.blank_quote] at hblank
      cases hblank
    | false =>
      obtain ⟨p', hp'⟩ := readChar_start R hblank
      have hle := weight_readChar_le hp'
      refine ⟨some p', 0, by rw [arguments_begin hblank, hp', Nat.zero_add], by rwa [Nat.zero_add],
        fun hquote _ => ?_, fun hc => notClosing_readChar hc hp'⟩
      rw [Nat.zero_add]
      exact weight_readChar_quote hquote Mode.noConfusion hp'
  | some p =>
    cases hread : R.readChar p c with
    | none =>
      have hlen := length_flush R p
      refine ⟨none, p.weight, by rw [arguments_end hread, cost, hlen], le_rfl, ?_, fun _ => trivial⟩
      rintro rfl
      rw [readChar_quote] at hread
      cases hread
    | some p' =>
      have hle := weight_readChar_le hread
      refine ⟨some p', 0, by rw [arguments_more hread, Nat.zero_add], by rwa [Nat.zero_add],
        fun hquote hs => ?_, fun hc => notClosing_readChar hc hread⟩
      rw [Nat.zero_add]
      exact weight_readChar_quote hquote hs hread

theorem cost_arguments_le (R : Rules α) (s : Option (Pending α)) (cs : List α) :
    cost (R.arguments s cs) ≤ weight s + cs.length := by
  induction cs generalizing s with
  | nil =>
    cases s with
    | none => exact Nat.zero_le _
    | some p =>
      rw [arguments, cost, length_flush]
      exact le_rfl
  | cons c cs ih =>
    obtain ⟨s', k, hcost, hstep, -⟩ := R.arguments_step s c cs
    have hrest := ih s'
    rw [hcost, List.length_cons]
    omega

/-- A quotation mark makes the arguments shorter than the command line has room for. -/
theorem cost_arguments_lt (R : Rules α) {s : Option (Pending α)} {cs : List α}
    (hs : notClosing s) (hquote : R.quote ∈ cs) :
    cost (R.arguments s cs) < weight s + cs.length := by
  induction cs generalizing s with
  | nil => cases hquote
  | cons c cs ih =>
    obtain ⟨s', k, hcost, hstep, hmark, hnext⟩ := R.arguments_step s c cs
    rw [hcost, List.length_cons]
    by_cases hc : c = R.quote
    · have hlost := hmark hc hs
      have hrest := cost_arguments_le R s' cs
      omega
    · have hrest := ih (hnext hc) ((List.mem_cons.mp hquote).resolve_left (Ne.symm hc))
      omega

/-! ## Without quotation marks -/

/-- Part of a plain argument, or a plain argument whose backslashes are still to come. -/
structure Clean (R : Rules α) (p : Pending α) : Prop where
  outside : p.mode = .outside
  text : ∀ c ∈ p.text, R.blank c = false ∧ c ≠ R.quote

omit [DecidableEq α] in
theorem Clean.flush (h : R.Clean p) : ∀ c ∈ R.flush p, R.blank c = false ∧ c ≠ R.quote := by
  intro c hc
  rcases List.mem_append.mp hc with hc | hc
  · exact h.text c hc
  · rw [(List.mem_replicate.mp hc).2]
    exact ⟨R.blank_backslash, R.backslash_ne_quote⟩

theorem Clean.readChar (h : R.Clean p) (hc : c ≠ R.quote) :
    (R.readChar p c = none ∧ R.blank c = true) ∨ (R.blank c = false ∧
      ∃ p', R.readChar p c = some p' ∧ R.Clean p' ∧ R.flush p' = R.flush p ++ [c]) := by
  have hnext : p.mode.next = .outside := by
    rw [h.outside]
    rfl
  rcases readChar_cases R p hc with ⟨he, hblank, -⟩ | ⟨rfl, he⟩ | ⟨-, hblank, he⟩
  · exact Or.inl ⟨he, hblank⟩
  · refine Or.inr ⟨R.blank_backslash, _, he, ⟨hnext, h.text⟩, ?_⟩
    rw [Rules.flush, Rules.flush, List.replicate_succ', List.append_assoc]
  · have hfalse : R.blank c = false := by
      rw [h.outside] at hblank
      simpa using hblank
    refine Or.inr ⟨hfalse, _, he, ⟨hnext, fun x hx => ?_⟩, List.append_nil _⟩
    rcases List.mem_append.mp hx with hx | hx
    · exact h.flush x hx
    · rw [List.mem_singleton.mp hx]
      exact ⟨hfalse, hc⟩

omit [DecidableEq α] in
theorem clean_start (R : Rules α) : R.Clean .start :=
  ⟨rfl, fun c hc => by cases hc⟩

def Begun (R : Rules α) : Option (Pending α) → Prop
  | none => True
  | some p => R.Clean p ∧ R.flush p ≠ []

theorem begun_readChar (h : R.Clean p) (hc : c ≠ R.quote) (hblank : R.blank c = false) :
    R.Begun (R.readChar p c) := by
  rcases h.readChar hc with ⟨-, htrue⟩ | ⟨-, p', he, hclean, hflush⟩
  · rw [hblank] at htrue
    cases htrue
  · rw [he]
    refine ⟨hclean, ?_⟩
    rw [hflush]
    exact List.append_ne_nil_of_right_ne_nil _ (List.cons_ne_nil c [])

theorem plain_of_mem_arguments {s : Option (Pending α)} {cs : List α} (hs : R.Begun s)
    (hquote : R.quote ∉ cs) : ∀ arg ∈ R.arguments s cs, R.Plain arg := by
  induction cs generalizing s with
  | nil =>
    cases s with
    | none =>
      intro arg harg
      cases harg
    | some p =>
      intro arg harg
      rw [List.mem_singleton.mp harg]
      exact ⟨hs.2, hs.1.flush⟩
  | cons c cs ih =>
    rw [List.mem_cons, not_or] at hquote
    have hc : c ≠ R.quote := Ne.symm hquote.1
    cases s with
    | none =>
      rw [arguments]
      split_ifs with hblank
      · exact ih (s := none) trivial hquote.2
      · exact ih (begun_readChar (clean_start R) hc (Bool.eq_false_iff.mpr hblank)) hquote.2
    | some p =>
      rw [arguments]
      split
      · intro arg harg
        rcases List.mem_cons.mp harg with rfl | hrest
        · exact ⟨hs.2, hs.1.flush⟩
        · exact ih (s := none) trivial hquote.2 arg hrest
      · next p' hp' =>
        apply ih ?_ hquote.2
        rcases hs.1.readChar hc with ⟨hnone, -⟩ | ⟨hblank, -⟩
        · rw [hnone] at hp'
          cases hp'
        · rw [← hp']
          exact begun_readChar hs.1 hc hblank

theorem arguments_word (hp : R.Clean p) {word : List α}
    (hword : ∀ c ∈ word, R.blank c = false ∧ c ≠ R.quote) (cs : List α) :
    ∃ p', R.Clean p' ∧ R.flush p' = R.flush p ++ word ∧
      R.arguments (some p) (word ++ cs) = R.arguments (some p') cs := by
  induction word generalizing p with
  | nil => exact ⟨p, hp, (List.append_nil _).symm, rfl⟩
  | cons c word ih =>
    obtain ⟨hblank, hc⟩ := hword c List.mem_cons_self
    rcases hp.readChar hc with ⟨-, htrue⟩ | ⟨-, p₁, he, hclean, hflush⟩
    · rw [hblank] at htrue
      cases htrue
    · obtain ⟨p', hp', hall, hargs⟩ := ih hclean (fun x hx => hword x (List.mem_cons_of_mem _ hx))
      refine ⟨p', hp', ?_, ?_⟩
      · rw [hall, hflush, List.append_assoc, List.singleton_append]
      · rw [List.cons_append, arguments_more he]
        exact hargs

/-! ## Arguments behind each other -/

def spaced (sep : α) (args : List (List α)) : List α := args.flatMap (fun a => sep :: a)

omit [DecidableEq α] in
theorem length_spaced (sep : α) (args : List (List α)) :
    (spaced sep args).length = cost args := by
  induction args with
  | nil => rfl
  | cons a args ih =>
    rw [spaced] at ih ⊢
    rw [List.flatMap_cons, List.length_append, List.length_cons, ih, cost]

variable {sep : α} {args : List (List α)}

theorem arguments_spaced_some (hsep : R.blank sep = true) (hp : R.Clean p) :
    R.arguments (some p) (spaced sep args) =
      R.flush p :: R.arguments none (spaced sep args) := by
  have hquote : sep ≠ R.quote := by
    rintro rfl
    rw [R.blank_quote] at hsep
    cases hsep
  cases args with
  | nil => rfl
  | cons a args =>
    have hend : R.readChar p sep = none := by
      rcases hp.readChar hquote with ⟨he, -⟩ | ⟨hfalse, -⟩
      · exact he
      · rw [hsep] at hfalse
        cases hfalse
    have hhead : spaced sep (a :: args) = sep :: (a ++ spaced sep args) := rfl
    rw [hhead, arguments_end hend, arguments_blank hsep]

theorem arguments_spaced (hsep : R.blank sep = true) (hplain : ∀ a ∈ args, R.Plain a) :
    R.arguments none (spaced sep args) = args := by
  induction args with
  | nil => rfl
  | cons a args ih =>
    obtain ⟨hne, hword⟩ := hplain a List.mem_cons_self
    obtain ⟨c, word, rfl⟩ := List.exists_cons_of_ne_nil hne
    have hc := hword c List.mem_cons_self
    have hhead : spaced sep ((c :: word) :: args) = sep :: (c :: (word ++ spaced sep args)) := rfl
    have hfirst := (clean_start R).readChar hc.2
    rcases hfirst with ⟨-, htrue⟩ | ⟨-, p, he, hclean, hflush⟩
    · rw [hc.1] at htrue
      cases htrue
    · obtain ⟨p', hp', hall, hargs⟩ := arguments_word hclean
        (fun x hx => hword x (List.mem_cons_of_mem _ hx)) (spaced sep args)
      have hwhole : R.flush p' = c :: word := by
        rw [hall, hflush]
        rfl
      rw [hhead, arguments_blank hsep, arguments_begin hc.1, he, hargs,
        arguments_spaced_some hsep hp', hwhole,
        ih (fun x hx => hplain x (List.mem_cons_of_mem _ hx))]

/-- Arguments that are written behind each other come back exactly if all are plain. -/
theorem arguments_spaced_iff (hsep : R.blank sep = true) :
    R.arguments none (spaced sep args) = args ↔ ∀ a ∈ args, R.Plain a := by
  refine ⟨fun heq => ?_, arguments_spaced hsep⟩
  by_cases hquote : R.quote ∈ spaced sep args
  · exfalso
    cases args with
    | nil => cases hquote
    | cons a args =>
      have hne : R.quote ≠ sep := by
        rintro rfl
        rw [R.blank_quote] at hsep
        cases hsep
      have hhead : spaced sep (a :: args) = sep :: (a ++ spaced sep args) := rfl
      have hlen := length_spaced sep (a :: args)
      rw [hhead] at hquote heq hlen
      rw [arguments_blank hsep] at heq
      have hlt := cost_arguments_lt R (s := none) trivial
        ((List.mem_cons.mp hquote).resolve_left hne)
      rw [heq, ← hlen, List.length_cons] at hlt
      simp only [weight] at hlt
      omega
  · rw [← heq]
    exact plain_of_mem_arguments (s := none) trivial hquote

theorem programName_quoted {name : List α} (hname : R.quote ∉ name) (cs : List α) :
    R.programName true (name ++ R.quote :: cs) =
      (name ++ (R.programName false cs).1, (R.programName false cs).2) := by
  induction name with
  | nil => rw [List.nil_append, programName, if_pos rfl]; rfl
  | cons c name ih =>
    rw [List.mem_cons, not_or] at hname
    rw [List.cons_append, programName, if_neg (Ne.symm hname.1), if_neg (by simp), ih hname.2]
    rfl

theorem mem_programName {quoted : Bool} {cs : List α} (h : c ∈ (R.programName quoted cs).1) :
    c ∈ cs := by
  induction cs generalizing quoted with
  | nil => cases h
  | cons x cs ih =>
    rw [programName] at h
    split_ifs at h
    · exact List.mem_cons_of_mem _ (ih h)
    · cases h
    · rcases List.mem_cons.mp h with rfl | hrest
      · exact List.mem_cons_self
      · exact List.mem_cons_of_mem _ (ih hrest)

theorem programName_spaced (hsep : R.blank sep = true) :
    R.programName false (spaced sep args) = ([], spaced sep args) := by
  have hquote : sep ≠ R.quote := by
    rintro rfl
    rw [R.blank_quote] at hsep
    cases hsep
  cases args with
  | nil => rfl
  | cons a args =>
    have hhead : spaced sep (a :: args) = sep :: (a ++ spaced sep args) := rfl
    rw [hhead, programName, if_neg hquote, if_pos ⟨hsep, rfl⟩]

theorem argv_spaced_iff {name : List α} (hname : R.quote ∉ name) (hsep : R.blank sep = true) :
    R.argv (R.quote :: (name ++ R.quote :: spaced sep args)) = name :: args ↔
      ∀ a ∈ args, R.Plain a := by
  have hprogram : R.programName false (R.quote :: (name ++ R.quote :: spaced sep args)) =
      (name, spaced sep args) := by
    rw [programName, if_pos rfl, Bool.not_false, programName_quoted hname,
      programName_spaced hsep, List.append_nil]
  rw [argv, hprogram, List.cons_inj_right]
  exact arguments_spaced_iff hsep

end Rules

end CommandLine
