/-
The errors of a source, found without its tokens.

An automaton with three modes goes through a source character by character and
knows nothing of tokens: it is in code, in a comment or in a string. It finds a
stray character where, in code, a character stands that no token may contain,
and it finds an open string if it comes to the end in a string.

`Dump.errors` reports the error tokens of a source. The two agree
(`Dump.errors_ofSource`), and the argument is a simulation: between two tokens
the automaton is in code. `Passes` says that the automaton goes through a
stretch of text from one mode to another and finds nothing on the way. There is
one such lemma for trivia and one for each class of tokens; only the two errors
are no such stretches. Put together along the cuts of a reading they give the
whole report.
-/
import ScriptFront.Dump
import ScriptFront.Proofs.Cuts

set_option autoImplicit false

namespace ScriptFront

open Token (IsNameStart IsDecimal IsNamePart IsLayout IsWord IsNumeral Spelling)

/-! ## The automaton -/

/-- Where the automaton is. -/
inductive Mode where
  | code
  | comment
  | string
deriving DecidableEq, Repr

/-- The mode after the character `c`, which `s` follows. -/
def Mode.after : Mode → Char → List Char → Mode
  | .code, c, s =>
    if c = '"' then .string
    else if c = '/' ∧ s.head? = some '/' then .comment
    else .code
  | .comment, c, _ => if c = '\n' then .code else .comment
  | .string, c, _ => if c = '"' then .code else .string

def Mode.final : Mode → List Char → Mode
  | m, [] => m
  | m, c :: s => (m.after c s).final s

/-- What symbols are written with. -/
def punctuation : List Char :=
  ['(', ')', '\x7b', '\x7d', ',', ';', '.', '-', '+', '*', '/', '!', '=', '<', '>']

/-- The character may not stand in code: it is no quote and is not among
`[A-Za-z0-9_]`, layout and punctuation. -/
def IsStray (c : Char) : Prop := c ≠ '"' ∧ ¬ IsNamePart c ∧ ¬ IsLayout c ∧ c ∉ punctuation

instance : DecidablePred IsStray := fun c =>
  inferInstanceAs (Decidable (c ≠ '"' ∧ ¬ IsNamePart c ∧ ¬ IsLayout c ∧ c ∉ punctuation))

/-- The stray characters of a text that comes after `before`, in order; each is
told by the text before it. -/
def strays (m : Mode) (before : List Char) : List Char → List (List Char)
  | [] => []
  | c :: s =>
    let found := strays (m.after c s) (before ++ [c]) s
    if m = .code ∧ IsStray c then before :: found else found

/-- The line that reports an error after `before`. -/
def errorLineAfter (before : List Char) (message : String) : String :=
  "[line " ++ toString (lineAfter before) ++ "] Error: " ++ message

/-- What the automaton reports of a text that comes after `before`: all stray
characters, then the open string if there is one. -/
def report (before s : List Char) : List String :=
  (strays .code before s).map (errorLineAfter · "Unexpected character.") ++
    if Mode.code.final s = .string then [errorLineAfter (before ++ s) "unterminated string"]
    else []

/-! ## Stretches without errors -/

/-- From the first mode the automaton goes through `s`, which `t` follows, to the
second one, and finds nothing. At the end of a source the modes may differ, as
long as both or none of them say that a string is open. -/
structure Passes (m : Mode) (s t : List Char) (m' : Mode) : Prop where
  -- Nothing stray lies in the stretch.
  strays_eq : ∀ before, strays m before (s ++ t) = strays m' (before ++ s) t
  -- What is open at the end does not depend on the stretch.
  open_iff : m.final (s ++ t) = .string ↔ m'.final t = .string

namespace Passes

variable {m m' m'' : Mode} {c : Char} {s t u : List Char}

/-- An empty stretch has no errors and keeps the mode. -/
theorem nil : Passes m [] t m where
  strays_eq before := by rw [List.nil_append, List.append_nil]
  open_iff := Iff.rfl

/-- Two stretches without errors are one. -/
theorem trans (h : Passes m s (t ++ u) m') (h' : Passes m' t u m'') : Passes m (s ++ t) u m'' where
  strays_eq before := by rw [List.append_assoc, h.strays_eq, h'.strays_eq, List.append_assoc]
  open_iff := by rw [List.append_assoc, h.open_iff, h'.open_iff]

/-- A stretch without errors can be begun by one more character that is none. -/
theorem cons (hc : m = .code → ¬ IsStray c) (h : Passes (m.after c (s ++ t)) s t m') :
    Passes m (c :: s) t m' where
  strays_eq before := by
    have hfine : ¬ (m = .code ∧ IsStray c) := fun hbad => hc hbad.1 hbad.2
    rw [List.cons_append, strays, if_neg hfine, h.strays_eq, List.append_assoc]
    rfl
  open_iff := h.open_iff

/-- A stretch whose characters are no errors and keep the mode has none, however long it is. -/
theorem of_forall_mem (h : ∀ c ∈ s, (m = .code → ¬ IsStray c) ∧ ∀ t, m.after c t = m) :
    Passes m s t m := by
  induction s with
  | nil => exact nil
  | cons c s ih =>
    obtain ⟨hc, hafter⟩ := h c List.mem_cons_self
    refine cons hc ?_
    rw [hafter]
    exact ih fun x hx => h x (List.mem_cons_of_mem _ hx)

/-! ### In comments and strings -/

/-- A comment runs on until the line ends. -/
theorem comment (h : '\n' ∉ s) : Passes .comment s t .comment := by
  refine of_forall_mem fun c hc => ⟨nofun, fun _ => if_neg ?_⟩
  rintro rfl
  exact h hc

/-- Where the line ends a comment is over. -/
theorem lineEnd (h : AtLineEnd t) : Passes .comment [] t .code := by
  rcases h with rfl | ⟨u, rfl⟩
  · exact ⟨fun _ => rfl, by decide⟩
  · have hfeed : ¬ (Mode.code = .code ∧ IsStray '\n') := by decide
    refine ⟨fun before => ?_, Iff.rfl⟩
    rw [List.nil_append, List.append_nil, strays, strays, if_neg (by decide), if_neg hfeed]
    rfl

/-- A string runs on until a quote. -/
theorem string (h : '"' ∉ s) : Passes .string s t .string := by
  refine of_forall_mem fun c hc => ⟨nofun, fun _ => if_neg ?_⟩
  rintro rfl
  exact h hc

/-! ### In code -/

/-- A character that is no quote and no slash, and no error, leaves code as it is. -/
theorem code (h : ∀ c ∈ s, c ≠ '"' ∧ c ≠ '/' ∧ ¬ IsStray c) : Passes .code s t .code := by
  refine of_forall_mem fun c hc => ?_
  obtain ⟨hquote, hslash, hfine⟩ := h c hc
  refine ⟨fun _ => hfine, fun t => ?_⟩
  rw [Mode.after, if_neg hquote, if_neg fun hboth => hslash hboth.1]

/-- Parts of names are no errors. -/
theorem nameParts (h : ∀ c ∈ s, IsNamePart c) : Passes .code s t .code := by
  refine code fun c hc => ?_
  have hpart := h c hc
  refine ⟨?_, ?_, fun hstray => hstray.2.1 hpart⟩
  · rintro rfl
    exact absurd hpart (by decide)
  · rintro rfl
    exact absurd hpart (by decide)

/-- Layout is no error. -/
theorem layout (hc : IsLayout c) : Passes .code [c] t .code := by
  refine code fun x hx => ?_
  obtain rfl := List.mem_singleton.mp hx
  refine ⟨?_, ?_, fun hstray => hstray.2.2.1 hc⟩
  · rintro rfl
    exact absurd hc (by decide)
  · rintro rfl
    exact absurd hc (by decide)

/-- A numeral is no error. -/
theorem numeral (h : IsNumeral s) : Passes .code s t .code := by
  cases h with
  | whole _ hall => exact nameParts fun c hc => .inr (hall c hc)
  | @fraction w f _ hall hfall =>
    have hdot : Passes .code ('.' :: f) t .code :=
      cons (fun _ => by decide) (nameParts fun c hc => .inr (hfall c hc))
    exact (nameParts fun c hc => .inr (hall c hc)).trans hdot

/-- A symbol is no error, unless it begins a comment. -/
theorem symbol (b : Token.Symbol) (h : ¬ BeginsTrivia (b.text.toList ++ t)) :
    Passes .code b.text.toList t .code := by
  -- Only a slash can lead out of code, and then another one follows.
  by_cases hb : b = .slash
  · have htext : b.text.toList = ['/'] := by
      rw [hb]
      rfl
    have hhead : ¬ t.head? = some '/' := by
      intro hhead
      obtain ⟨u, rfl⟩ := List.head?_eq_some_iff.mp hhead
      exact h (.inr ⟨u, by rw [htext]; rfl⟩)
    have hslash : Mode.after .code '/' t = .code := by
      rw [Mode.after, if_neg (by decide), if_neg fun hboth => hhead hboth.2]
    have hstep : Passes (Mode.after .code '/' t) [] t .code := by
      rw [hslash]
      exact nil
    rw [htext]
    exact cons (fun _ => by decide) hstep
  · have hall :
        (b.text.toList.all fun c => c != '"' && c != '/' && !decide (IsStray c)) = true := by
      cases b
      all_goals first
        | exact absurd rfl hb
        | decide
    refine code fun c hc => ?_
    have hc' := List.all_eq_true.mp hall c hc
    simp only [Bool.and_eq_true, bne_iff_ne, Bool.not_eq_true', decide_eq_false_iff_not] at hc'
    exact ⟨hc'.1.1, hc'.1.2, hc'.2⟩

end Passes

/-- **Trivia have no errors**, and after them code goes on. -/
theorem Trivia.passes {gap after : List Char} (h : Trivia gap after) :
    Passes .code gap after .code := by
  induction h with
  | nil => exact .nil
  | layout hc _ ih => exact (Passes.layout hc).trans ih
  | @comment body s after hbody hend _ ih =>
    -- The comment is not left by its last character: the line end does it, and
    -- that belongs to what comes after.
    have hrest : Passes .comment (body ++ s) after .code :=
      (Passes.comment hbody).trans ((Passes.lineEnd hend).trans ih)
    exact .cons (fun _ => by decide) (.cons nofun hrest)

/-- **A spelling has no errors**, whatever its class, and after it code goes on. -/
theorem Token.Spelling.passes {d : Dialect} {k : Token.Kind} {w after : List Char}
    (h : Spelling d k w) (hbegins : ¬ BeginsTrivia (w ++ after)) :
    Passes .code w after .code := by
  cases h with
  | keyword hword _ | identifier hword _ => exact .nameParts hword.forall_mem
  | number hnum => exact .numeral hnum
  | @string body hbody =>
    have hclose : Passes .string ['"'] after .code := .cons nofun .nil
    exact .cons (fun _ => by decide) ((Passes.string hbody).trans hclose)
  | symbol b => exact .symbol b hbegins

/-! ## Errors of tokens -/

/-- Every character of the automaton's punctuation begins a symbol. -/
theorem exists_ofChar?_of_mem {c : Char} (h : c ∈ punctuation) :
    ∃ a, Token.Symbol.ofChar? c = some a := by
  have hall : (punctuation.all fun c => (Token.Symbol.ofChar? c).isSome) = true := by decide
  exact Option.isSome_iff_exists.mp (List.all_eq_true.mp hall c h)

/-- A character that is no layout and begins no spelling is a stray one for the automaton. -/
theorem isStray_of_no_spelling {d : Dialect} {c : Char}
    (hnone : ∀ k w, ¬ Spelling d k (c :: w)) (hlayout : ¬ IsLayout c) : IsStray c := by
  have hstart : ¬ ∃ k w, Spelling d k (c :: w) := fun ⟨k, w, h⟩ => hnone k w h
  simp only [Token.exists_spelling_iff, not_or] at hstart
  obtain ⟨hname, hdec, hquote, hsymbol⟩ := hstart
  exact ⟨hquote, not_or.mpr ⟨hname, hdec⟩, hlayout, fun hc => hsymbol (exists_ofChar?_of_mem hc)⟩

section Report

variable {before s t : List Char}

/-- A stretch without errors adds nothing to the report. -/
theorem report_passes (h : Passes .code s t .code) :
    report before (s ++ t) = report (before ++ s) t := by
  rw [report, report, h.strays_eq, List.append_assoc]
  simp only [h.open_iff]

/-- A stray character adds its line to the report. -/
theorem report_stray {c : Char} (hc : IsStray c) :
    report before (c :: s) =
      errorLineAfter before "Unexpected character." :: report (before ++ [c]) s := by
  have hslash : c ≠ '/' := by
    rintro rfl
    exact hc.2.2.2 (by decide)
  have hafter : Mode.after .code c s = .code := by
    rw [Mode.after, if_neg hc.1, if_neg fun hboth => hslash hboth.1]
  rw [report, strays, if_pos ⟨rfl, hc⟩, Mode.final, hafter, report, List.append_assoc]
  rfl

/-- A quote that no other follows is reported, and nothing else is. -/
theorem report_unterminated (h : '"' ∉ s) :
    report before ('"' :: s) = [errorLineAfter (before ++ '"' :: s) "unterminated string"] := by
  -- The stretch is the whole rest of the source, and it ends in a string.
  have hopen : Passes .code ('"' :: s) [] .string :=
    .cons (fun _ => by decide) (Passes.string h)
  have hnone := hopen.strays_eq before
  have hfinal := hopen.open_iff.mpr rfl
  rw [List.append_nil] at hnone hfinal
  rw [report, hnone, if_pos hfinal]
  rfl

theorem report_nil : report before [] = [] := rfl

end Report

/-- The errors of one list of tokens after another are reported in their order. -/
theorem Dump.errors_append (s t : List Token) :
    Dump.errors (s ++ t) = Dump.errors s ++ Dump.errors t := by
  rw [errors, List.filter_append, List.map_append]
  rfl

/-- What the automaton reports while it goes through a token is the error that
the token is, if it is one. -/
theorem Cut.IsToken.report_eq {d : Dialect} {k : Cut} (h : k.IsToken d) :
    report k.start (k.text ++ k.after) = Dump.errors [k.token] ++ report k.stop k.after := by
  have hline := h.line
  obtain ⟨before, gap, text, after, kind, lexeme, line, span⟩ := k
  have hread : Token.Reading d kind lexeme text after := h.longest.reading
  cases hread with
  | token hspell =>
    have hfine : Dump.errors [Token.mk kind (String.ofList text) line span] = [] := by
      have hkind : Token.isError (Token.mk kind (String.ofList text) line span) = false :=
        decide_eq_false hspell.kind_ne.1
      rw [Dump.errors, List.filter_cons_of_neg (Bool.not_eq_true _ ▸ hkind)]
      rfl
    rw [hfine, report_passes (hspell.passes h.begins)]
    rfl
  | @unterminated body hbody =>
    obtain rfl : line = lineAfter (before ++ gap ++ '"' :: body) := hline
    rw [List.append_nil, report_unterminated hbody, report_nil]
    rfl
  | @unexpected c _ hnone hlayout =>
    obtain rfl : line = lineAfter (before ++ gap) := hline
    rw [List.singleton_append, report_stray (isStray_of_no_spelling hnone hlayout)]
    rfl

/-- **The errors of a reading are the report of the automaton** over the same text. The
induction is on the cuts. -/
theorem Cuts.report_eq {d : Dialect} {before rest : List Char} {cuts : List Cut}
    (h : Cuts d before rest cuts) :
    Dump.errors (cuts.map Cut.token) = report before rest := by
  induction h with
  | @last k hend =>
    rw [← List.append_nil k.gap, report_passes hend.gap.passes, List.map_singleton, hend.token]
    rfl
  | @next k ks htoken _ ih =>
    have hgap : Passes .code k.gap (k.text ++ k.after) .code := htoken.gap.passes
    rw [report_passes hgap, List.map_cons, ← List.singleton_append, Dump.errors_append, ih]
    exact htoken.report_eq.symm

/-- **The errors among the tokens of a source are what the automaton reports.** -/
theorem Dump.errors_ofSource (d : Dialect) (source : String) :
    Dump.errors (Token.ofSource d source) = report [] source.toList := by
  obtain ⟨cuts, hcuts, htokens⟩ := Token.exists_cuts d source
  rw [← htokens, hcuts.report_eq]

/-- There is something to report exactly if there are stray characters or the text ends inside a
string. -/
theorem report_ne_nil_iff {before s : List Char} :
    report before s ≠ [] ↔ strays .code before s ≠ [] ∨ Mode.code.final s = .string := by
  rw [report]
  by_cases hopen : Mode.code.final s = .string
  · rw [if_pos hopen]
    exact ⟨fun _ => .inr hopen,
      fun _ => List.append_ne_nil_of_right_ne_nil _ (List.cons_ne_nil _ _)⟩
  · rw [if_neg hopen, List.append_nil, ne_eq, List.map_eq_nil_iff]
    exact ⟨.inl, fun h => h.resolve_right hopen⟩

end ScriptFront
