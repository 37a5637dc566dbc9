/-
What a dialect decides.

Two cursors at one place in one source that differ in their dialects pull tokens that
differ in nothing but the class of `fun`, and stay at one place. So reading under another
dialect is reading under the first one and then giving every `fun` its other class
(`Cursor.tokens_inDialect`). A lexeme does not depend on the dialect where it does not
begin with a letter, and no string, number, symbol or message reads `fun`.

Which classes occur follows from how they are spelled: a token of a keyword's class shows
a word reserved for it, and a token that shows a word is of the class of that word
(`Token.kind_of_isWord`).
-/
import ScriptFront.Proofs.Interleaving
import ScriptFront.Proofs.Relayout

set_option autoImplicit false

namespace ScriptFront

open Token (Keyword Kind IsWord IsNamePart Spelling)

/-! ## One word -/

namespace Dialect

theorem wordKind_fun (d : Dialect) : d.wordKind "fun".toList = .keyword d.funKeyword := rfl

/-- Apart from `fun`, the words that are reserved do not depend on the dialect. -/
theorem reserves_iff_of_ne {d : Dialect} {w : List Char} {k : Keyword} (hw : w ≠ "fun".toList) :
    d.Reserves w k ↔ w = k.word.toList := by
  rw [Reserves, if_neg hw]

/-- Where `fun` is not told apart, no word is of the class it would have. -/
theorem not_reserves_function {d : Dialect} (hd : d.distinctFun = false) (w : List Char) :
    ¬ d.Reserves w .function := by
  intro h
  by_cases hw : w = "fun".toList
  · rw [Reserves, if_pos hw, hd] at h
    contradiction
  · exact hw ((reserves_iff_of_ne hw).mp h)

/-- Where `fun` is told apart, `for` alone begins a counting loop. -/
theorem reserves_forLoop_iff {d : Dialect} (hd : d.distinctFun = true) {w : List Char} :
    d.Reserves w .forLoop ↔ w = "for".toList := by
  by_cases hw : w = "fun".toList
  · rw [Reserves, if_pos hw, hd, hw]
    decide
  · exact reserves_iff_of_ne hw

/-- Every word but `fun` has the same class in all dialects. -/
theorem wordKind_of_ne (d d' : Dialect) {w : List Char} (hw : w ≠ "fun".toList) :
    d'.wordKind w = d.wordKind w := by
  by_cases hreserved : ∃ k, d.Reserves w k
  · obtain ⟨k, hk⟩ := hreserved
    have hk' : d'.Reserves w k := (reserves_iff_of_ne hw).mpr ((reserves_iff_of_ne hw).mp hk)
    rw [wordKind_eq_keyword hk, wordKind_eq_keyword hk']
  · have hfree : ∀ k, ¬ d'.Reserves w k := by
      intro k hk
      exact hreserved ⟨k, (reserves_iff_of_ne hw).mpr ((reserves_iff_of_ne hw).mp hk)⟩
    rw [wordKind_eq_identifier (not_exists.mp hreserved), wordKind_eq_identifier hfree]

end Dialect

/-! ## One token -/

/-- The token as it is in a dialect: `fun` is of the class that the dialect says. -/
def Token.inDialect (d : Dialect) (t : Token) : Token :=
  if t.lexeme = "fun" then { t with kind := .keyword d.funKeyword } else t

/-- The cursor that reads on in a dialect. -/
def Cursor.inDialect (d : Dialect) (c : Cursor) : Cursor := { c with dialect := d }

/-- No message reads `fun`, so an error token never looks like the word. -/
theorem LexicalError.message_ne_fun (e : LexicalError) : e.message ≠ "fun" := by
  cases e <;> decide

namespace Lexeme

/-- What does not begin with a letter does not depend on the dialect. -/
theorem ofHead_of_not_isLetter (d d' : Dialect) {c : Char} (s : List Char)
    (hc : isLetter c = false) : ofHead d' c s = ofHead d c s := by
  unfold ofHead
  rw [hc, if_neg Bool.false_ne_true, if_neg Bool.false_ne_true]

/-- How far a lexeme goes does not depend on the dialect. -/
theorem text_ofHead (d d' : Dialect) (c : Char) (s : List Char) :
    (ofHead d' c s).text = (ofHead d c s).text ∧ (ofHead d' c s).rest = (ofHead d c s).rest := by
  cases hc : isLetter c with
  | false =>
    rw [ofHead_of_not_isLetter d d' s hc]
    exact ⟨rfl, rfl⟩
  | true =>
    unfold ofHead
    rw [if_pos hc, if_pos hc]
    exact ⟨rfl, rfl⟩

/-- A token that shows `fun` begins with a letter. -/
theorem lexeme_ne_fun (d : Dialect) {c : Char} (s : List Char) (hc : isLetter c = false)
    (p q : Place) : ((ofHead d c s).token p q).lexeme ≠ "fun" := by
  unfold token
  split
  · next k hk =>
    dsimp only
    intro hfun
    have hhead := head?_text d c s
    rw [← String.toList_ofList (l := (ofHead d c s).text), hfun] at hhead
    obtain rfl : 'f' = c := Option.some.inj hhead
    exact absurd hc (by decide)
  · next e he => exact e.message_ne_fun

/-- **The dialect decides the class of `fun` and of nothing else.** -/
theorem token_ofHead (d d' : Dialect) (c : Char) (s : List Char) (p q : Place) :
    (ofHead d' c s).token p q = ((ofHead d c s).token p q).inDialect d' := by
  cases hc : isLetter c with
  | false =>
    rw [ofHead_of_not_isLetter d d' s hc, Token.inDialect, if_neg (lexeme_ne_fun d s hc p q)]
  | true =>
    have hword : ∀ d : Dialect, ofHead d c s = word d c s := fun d => if_pos hc
    rw [hword, hword]
    dsimp only [word, token, Token.inDialect]
    by_cases hfun : c :: s.takeWhile isWordChar = "fun".toList
    · rw [hfun, String.ofList_toList, if_pos rfl, Dialect.wordKind_fun]
    · have hlexeme : String.ofList (c :: s.takeWhile isWordChar) ≠ "fun" := by
        intro h
        exact hfun (by rw [← h, String.toList_ofList])
      rw [if_neg hlexeme, Dialect.wordKind_of_ne d d' hfun]

end Lexeme

/-! ## One source -/

namespace Cursor

/-- **One pull in each of two dialects** leaves both cursors at one place, with one token
in their hands but for the class of `fun`. -/
theorem pull_inDialect (d : Dialect) (c : Cursor) :
    (c.inDialect d).pull = (c.pull.1.inDialect d, c.pull.2.inDialect d) := by
  unfold pull
  dsimp only [inDialect]
  split
  · next p hskip => rfl
  · next p a s hskip =>
    obtain ⟨htext, hrest⟩ := Lexeme.text_ofHead c.dialect d a s
    dsimp only
    rw [htext, hrest, Lexeme.token_ofHead c.dialect d]

/-- The end token is the end token in both. -/
theorem isEof_pull_inDialect (d : Dialect) (c : Cursor) :
    (c.pull.1.inDialect d).isEof = c.pull.1.isEof := by
  rw [Token.inDialect]
  split
  · next hfun =>
    cases heof : c.pull.1.isEof with
    | false => rfl
    | true =>
      obtain ⟨p, hp⟩ := exists_pull_of_isEof heof
      rw [hp] at hfun
      have hempty : "" = "fun" := hfun
      exact absurd hempty (by decide)
  · rfl

/-- A call on a cursor in another dialect hands out the token of that dialect. -/
theorem next?_inDialect (d : Dialect) (c : Cursor) :
    (c.inDialect d).next? = c.next?.map fun r => (r.1.inDialect d, r.2.inDialect d) := by
  have hended : (c.inDialect d).ended = c.ended := rfl
  cases hc : c.ended with
  | true =>
    rw [next?, next?, hended, hc]
    rfl
  | false =>
    rw [next?_of_not_ended (hended.trans hc), next?_of_not_ended hc, pull_inDialect]
    dsimp only [Option.map]
    rw [isEof_pull_inDialect]
    rfl

/-- **Reading in another dialect gives the same tokens, each as it is in that dialect.**
The induction is on how often the cursor still answers. -/
theorem tokens_inDialect (d : Dialect) (c : Cursor) :
    (c.inDialect d).tokens = c.tokens.map (Token.inDialect d) := by
  induction hn : c.remaining using Nat.strongRecOn generalizing c with
  | ind n ih =>
    subst hn
    rw [tokens_eq, tokens_eq c, next?_inDialect]
    cases hnext : c.next? with
    | none => rfl
    | some r =>
      dsimp only [Option.map]
      rw [ih _ (remaining_lt hnext) r.2 rfl]
      rfl

end Cursor

/-- The tokens of a source in one dialect are those in another, each put into that dialect. -/
theorem Token.ofSource_inDialect (d d' : Dialect) (source : String) :
    Token.ofSource d' source = (Token.ofSource d source).map (Token.inDialect d') :=
  Cursor.tokens_inDialect d' (Cursor.ofSource d source)

/-! ## The classes that occur -/

namespace Token

variable {d : Dialect} {source : String} {t : Token}

/-- What shows a word is of the class of that word: the messages of errors are none. -/
theorem Reading.kind_of_isWord {kind : Kind} {lexeme : String} {text after : List Char}
    (h : Reading d kind lexeme text after) (hw : IsWord lexeme.toList) :
    kind = d.wordKind lexeme.toList := by
  cases h with
  | token hspell =>
    rw [String.toList_ofList] at hw ⊢
    obtain ⟨c, s, rfl⟩ := List.exists_cons_of_ne_nil hspell.ne_nil
    have hreading : Reading d kind (String.ofList (c :: s)) (c :: s) after := .token hspell
    exact (hreading.of_isNameStart rfl hw.isNameStart).2.1
  | unterminated _ | unexpected _ _ =>
    have hblank := hw.forall_mem ' ' (by decide)
    exact absurd hblank (by decide)

/-- A token that is spelled as a word has the kind of that word. -/
theorem kind_of_isWord (ht : t ∈ Token.ofSource d source) (hw : IsWord t.lexeme.toList) :
    t.kind = d.wordKind t.lexeme.toList := by
  obtain ⟨cuts, hcuts, htokens⟩ := Token.exists_cuts d source
  rw [← htokens] at ht
  obtain ⟨k, hk, rfl⟩ := List.mem_map.mp ht
  rcases hcuts.succession.sound k hk with hend | htoken
  · rw [hend.token] at hw
    exact hw.elim
  · exact htoken.longest.reading.kind_of_isWord hw

/-- A token of a keyword's class shows a word that is reserved for the keyword. -/
theorem reserves_of_mem (ht : t ∈ Token.ofSource d source) {k : Keyword}
    (hkind : t.kind = .keyword k) : d.Reserves t.lexeme.toList k := by
  have hwritten : t.isWritten = true := by
    rw [isWritten, isError, isEof, hkind]
    rfl
  have hspell := spelling_of_mem ht hwritten
  rw [hkind] at hspell
  cases hspell with
  | keyword _ hreserved => exact hreserved

/-! ## Two dialects -/

/-- The tokens are the same but for the class of `fun`, which is a keyword of its own in
the first and a counting loop in the second. -/
structure DiffersInFun (t t' : Token) : Prop where
  lexeme : t.lexeme = t'.lexeme
  line : t.line = t'.line
  span : t.span = t'.span
  kind : if t.lexeme = "fun" then t.kind = .keyword .function ∧ t'.kind = .keyword .forLoop
    else t.kind = t'.kind

theorem differsInFun_inDialect (t : Token) :
    DiffersInFun (t.inDialect { distinctFun := true }) (t.inDialect { distinctFun := false }) := by
  unfold inDialect
  by_cases hfun : t.lexeme = "fun"
  · rw [if_pos hfun, if_pos hfun]
    exact ⟨rfl, rfl, rfl, (if_pos hfun).mpr ⟨rfl, rfl⟩⟩
  · rw [if_neg hfun, if_neg hfun]
    exact ⟨rfl, rfl, rfl, (if_neg hfun).mpr rfl⟩

/-- **The choice about `fun` changes nothing but the class of `fun`.** The tokens of a
source with the choice and without it are as many, and each is the same as the other but
for that class. Without the choice no token is of the class of its own, and with it the
counting loops are the tokens that show `for`. -/
theorem ofSource_distinctFun (source : String) :
    List.Forall₂ DiffersInFun (ofSource { distinctFun := true } source)
        (ofSource { distinctFun := false } source) ∧
      (∀ t ∈ ofSource { distinctFun := false } source, t.kind ≠ .keyword .function) ∧
      ∀ t ∈ ofSource { distinctFun := true } source,
        t.kind = .keyword .forLoop ↔ t.lexeme = "for" := by
  refine ⟨?_, ?_, ?_⟩
  · -- Both are the one list, told in either dialect.
    have hdistinct := ofSource_inDialect { distinctFun := false } { distinctFun := true } source
    have hplain := ofSource_inDialect { distinctFun := false } { distinctFun := false } source
    rw [hdistinct]
    conv_rhs => rw [hplain]
    rw [List.forall₂_map_left_iff, List.forall₂_map_right_iff, List.forall₂_same]
    intro t _
    exact differsInFun_inDialect t
  · intro t ht hkind
    exact Dialect.not_reserves_function rfl _ (reserves_of_mem ht hkind)
  · intro t ht
    constructor
    · intro hkind
      have hword := (Dialect.reserves_forLoop_iff rfl).mp (reserves_of_mem ht hkind)
      exact String.toList_inj.mp hword
    · intro hlexeme
      have hword : IsWord t.lexeme.toList := by
        rw [hlexeme]
        exact Token.isWord_cons_iff.mpr ⟨rfl, rfl⟩
      rw [kind_of_isWord ht hword, hlexeme]
      rfl

/-- A string that holds `fun` is left alone. -/
example : (Token.ofSource { distinctFun := true } "fun \"fun\" for").map Token.kind =
    [.keyword .function, .string, .keyword .forLoop, .eof] := by decide +kernel

end Token

end ScriptFront
