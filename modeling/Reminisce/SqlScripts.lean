import Mathlib.Data.List.Infix
import Mathlib.Data.List.TakeWhile

namespace Reminisce

/-- `char::is_whitespace`. -/
def isWhitespace (c : Char) : Bool :=
  let n := c.toNat
  (9 ≤ n && n ≤ 13) || n = 32 || n = 0x85 || n = 0xA0 || n = 0x1680 ||
    (0x2000 ≤ n && n ≤ 0x200A) || n = 0x2028 || n = 0x2029 || n = 0x202F || n = 0x205F || n = 0x3000

/-- `str::trim`. -/
def trimChars (cs : List Char) : List Char :=
  ((cs.dropWhile isWhitespace).reverse.dropWhile isWhitespace).reverse

/-- The variables of the loop of `split_sql_statements`. -/
structure SplitState where
  statements : List (List Char)
  current : List Char
  inDollar : Bool
  inSingleQuote : Bool
  blockCommentDepth : Nat

namespace SplitState

def init : SplitState := ⟨[], [], false, false, 0⟩

def keep (s : SplitState) (cs : List Char) : SplitState := { s with current := s.current ++ cs }

/-- A statement that is not blank is kept. -/
def endStatement (s : SplitState) : SplitState :=
  let statement := trimChars s.current
  { s with
    statements := if statement = [] then s.statements else s.statements ++ [statement]
    current := [] }

end SplitState

/-- The loop over the characters that are left. -/
def splitLoop (s : SplitState) : List Char → SplitState
  | [] => s
  | c :: rest =>
    if 0 < s.blockCommentDepth then
      if c = '/' ∧ rest.head? = some '*' then
        splitLoop { s with blockCommentDepth := s.blockCommentDepth + 1 } rest.tail
      else if c = '*' ∧ rest.head? = some '/' then
        splitLoop { s with blockCommentDepth := s.blockCommentDepth - 1 } rest.tail
      else splitLoop s rest
    else if c = '-' ∧ rest.head? = some '-' ∧ s.inDollar = false ∧ s.inSingleQuote = false then
      splitLoop s (rest.dropWhile (· ≠ '\n'))
    else if c = '/' ∧ rest.head? = some '*' ∧ s.inDollar = false ∧ s.inSingleQuote = false then
      splitLoop { s with blockCommentDepth := 1 } rest.tail
    else if s.inDollar = false ∧ c = '$' ∧ rest.head? = some '$' then
      splitLoop { s.keep ['$', '$'] with inDollar := true } rest.tail
    else if s.inDollar = true ∧ c = '$' ∧ rest.head? = some '$' then
      splitLoop { s.keep ['$', '$'] with inDollar := false } rest.tail
    else if s.inDollar = false ∧ c = '\'' then
      if s.inSingleQuote = true ∧ rest.head? = some '\'' then
        splitLoop (s.keep ['\'', '\'']) rest.tail
      else splitLoop { s.keep [c] with inSingleQuote := !s.inSingleQuote } rest
    else if c = ';' ∧ s.inDollar = false ∧ s.inSingleQuote = false then
      splitLoop s.endStatement rest
    else splitLoop (s.keep [c]) rest
termination_by cs => cs.length
decreasing_by
  all_goals
    have htail : rest.tail.length ≤ rest.length := by simp
    have hdrop : (rest.dropWhile (· ≠ '\n')).length ≤ rest.length :=
      (List.dropWhile_suffix _).length_le
    simp only [List.length_cons]
    omega

def splitSqlStatements (sql : List Char) : List (List Char) :=
  (splitLoop .init sql).endStatement.statements

/-- What a script is made of. A literal is without its quotes, a comment with what ends it. -/
inductive SqlToken
  | text (c : Char)
  | literal (body : List Char)
  | dollar (body : List Char)
  | lineComment (body : List Char)
  | blockComment (body : List Char)
  | semicolon
  deriving DecidableEq, Repr

/-- The text of a literal, its quotes doubled. -/
def doubled (body : List Char) : List Char :=
  body.flatMap fun c => if c = '\'' then ['\'', '\''] else [c]

/-- A text that ends where it has closed so many comments. -/
inductive Closes : Nat → List Char → Prop
  | done : Closes 0 []
  | nested {depth : Nat} {rest : List Char} (h : Closes (depth + 2) rest) :
      Closes (depth + 1) ('/' :: '*' :: rest)
  | closing {depth : Nat} {rest : List Char} (h : Closes depth rest) :
      Closes (depth + 1) ('*' :: '/' :: rest)
  | skipped {depth : Nat} {c : Char} {rest : List Char} (h : Closes (depth + 1) rest)
      (hopen : ¬(c = '/' ∧ rest.head? = some '*')) (hclose : ¬(c = '*' ∧ rest.head? = some '/')) :
      Closes (depth + 1) (c :: rest)

namespace SqlToken

def render : SqlToken → List Char
  | text c => [c]
  | literal body => '\'' :: (doubled body ++ ['\''])
  | dollar body => ['$', '$'] ++ body ++ ['$', '$']
  | lineComment body => ['-', '-'] ++ body
  | blockComment body => ['/', '*'] ++ body
  | semicolon => [';']

/-- The token can be read in front of the rest of a script. -/
def Stands (rest : List Char) : SqlToken → Prop
  | text c => c ≠ '\'' ∧ c ≠ ';' ∧ ¬(c = '-' ∧ rest.head? = some '-') ∧
      ¬(c = '/' ∧ rest.head? = some '*') ∧ ¬(c = '$' ∧ rest.head? = some '$')
  | literal body => ¬['$', '$'] <:+: doubled body ∧ rest.head? ≠ some '\''
  | dollar body => ¬['$', '$'] <:+: body ++ ['$']
  | lineComment body => '\n' ∉ body ∧ ∀ c ∈ rest.head?, c = '\n'
  | blockComment body => Closes 1 body
  | semicolon => True

/-- What of the token is run: comments are left out. -/
def kept : SqlToken → List Char
  | lineComment _ => []
  | blockComment _ => []
  | token => token.render

end SqlToken

def renderTokens (tokens : List SqlToken) : List Char := tokens.flatMap SqlToken.render

/-- The tokens can be read one after the other, in front of a rest. -/
def TokensStand (rest : List Char) : List SqlToken → Prop
  | [] => True
  | token :: tokens => token.Stands (renderTokens tokens ++ rest) ∧ TokensStand rest tokens

/-- The texts between the semicolons, without comments. -/
def statementTexts (tokens : List SqlToken) : List (List Char) :=
  (tokens.splitOnP (· = .semicolon)).map fun part => part.flatMap SqlToken.kept

/-- The texts that are not blank. -/
def statementsOf (tokens : List SqlToken) : List (List Char) :=
  ((statementTexts tokens).map trimChars).filter (· ≠ [])

section Reading

variable {s : SplitState} {rest body : List Char} {c : Char}

/-- Outside of quotes and comments. -/
structure SplitState.Clean (s : SplitState) : Prop where
  inDollar : s.inDollar = false
  inSingleQuote : s.inSingleQuote = false
  depth : s.blockCommentDepth = 0

theorem splitLoop_text (hs : s.Clean) (h : (SqlToken.text c).Stands rest) :
    splitLoop s (c :: rest) = splitLoop (s.keep [c]) rest := by
  obtain ⟨hquote, hsemi, hline, hblock, hdollar⟩ := h
  rw [splitLoop, if_neg (by simp [hs.depth]), if_neg fun h => hline ⟨h.1, h.2.1⟩,
    if_neg fun h => hblock ⟨h.1, h.2.1⟩, if_neg fun h => hdollar h.2, if_neg fun h => hdollar h.2,
    if_neg fun h => hquote h.2, if_neg fun h => hsemi h.1]

theorem splitLoop_semicolon (hs : s.Clean) :
    splitLoop s (';' :: rest) = splitLoop s.endStatement rest := by
  rw [splitLoop, if_neg (by simp [hs.depth])]
  simp [hs.inDollar, hs.inSingleQuote]

theorem dropWhile_line (hbody : '\n' ∉ body) (hrest : ∀ c ∈ rest.head?, c = '\n') :
    (body ++ rest).dropWhile (· ≠ '\n') = rest := by
  induction body with
  | nil =>
    cases rest with
    | nil => rfl
    | cons c rest =>
      obtain rfl : c = '\n' := hrest c rfl
      rfl
  | cons c body ih =>
    rw [List.mem_cons, not_or] at hbody
    rw [List.cons_append, List.dropWhile_cons_of_pos (by simpa using Ne.symm hbody.1)]
    exact ih hbody.2

theorem splitLoop_lineComment (hs : s.Clean) (h : (SqlToken.lineComment body).Stands rest) :
    splitLoop s ((SqlToken.lineComment body).render ++ rest) = splitLoop s rest := by
  have hdrop : ('-' :: (body ++ rest)).dropWhile (· ≠ '\n') = rest := by
    rw [List.dropWhile_cons_of_pos (by decide)]
    exact dropWhile_line h.1 h.2
  rw [SqlToken.render, List.append_assoc, List.cons_append, splitLoop, if_neg (by simp [hs.depth]),
    if_pos ⟨rfl, rfl, hs.inDollar, hs.inSingleQuote⟩]
  rw [List.cons_append, List.nil_append, hdrop]

/-- Within comments everything is left out, up to where the last one is closed. -/
theorem splitLoop_closes {depth : Nat} (h : Closes depth body) :
    splitLoop { s with blockCommentDepth := depth } (body ++ rest) =
      splitLoop { s with blockCommentDepth := 0 } rest := by
  induction h with
  | done => rfl
  | nested h ih =>
    rw [List.cons_append, List.cons_append, splitLoop, if_pos (Nat.succ_pos _),
      if_pos ⟨rfl, rfl⟩]
    exact ih
  | closing h ih =>
    rw [List.cons_append, List.cons_append, splitLoop, if_pos (Nat.succ_pos _),
      if_neg (by simp), if_pos ⟨rfl, rfl⟩]
    exact ih
  | @skipped depth c tail h hopen hclose ih =>
    have hne : tail ≠ [] := by
      rintro rfl
      cases h
    have hhead : (tail ++ rest).head? = tail.head? := List.head?_append_of_ne_nil _ hne
    rw [List.cons_append, splitLoop, if_pos (Nat.succ_pos _), hhead, if_neg hopen, if_neg hclose]
    exact ih

theorem splitLoop_blockComment (hs : s.Clean) (h : (SqlToken.blockComment body).Stands rest) :
    splitLoop s ((SqlToken.blockComment body).render ++ rest) = splitLoop s rest := by
  have hdepth : { s with blockCommentDepth := 0 } = s := by
    rw [← hs.depth]
  rw [SqlToken.render, List.append_assoc, List.cons_append, splitLoop, if_neg (by simp [hs.depth]),
    if_neg (by simp), if_pos ⟨rfl, rfl, hs.inDollar, hs.inSingleQuote⟩]
  change splitLoop { s with blockCommentDepth := 1 } (body ++ rest) = _
  rw [splitLoop_closes h, hdepth]

theorem splitLoop_quoted (hdollar : s.inDollar = false) (hdepth : s.blockCommentDepth = 0)
    (hquote : s.inSingleQuote = true) (h : (SqlToken.literal body).Stands rest) :
    splitLoop s (doubled body ++ '\'' :: rest) =
      splitLoop { s.keep (doubled body ++ ['\'']) with inSingleQuote := false } rest := by
  obtain ⟨hbody, hrest⟩ := h
  induction body generalizing s with
  | nil =>
    change splitLoop s ('\'' :: rest) = _
    rw [splitLoop, if_neg (by simp [hdepth]), if_neg (by simp), if_neg (by simp),
      if_neg (by simp), if_neg (by simp), if_pos ⟨hdollar, rfl⟩, if_neg fun h => hrest h.2, hquote]
    rfl
  | cons c body ih =>
    by_cases hc : c = '\''
    · subst hc
      have hmore : doubled ('\'' :: body) = '\'' :: '\'' :: doubled body := rfl
      rw [hmore] at hbody ⊢
      have hinner : ¬['$', '$'] <:+: doubled body := fun h =>
        hbody (h.trans ⟨['\'', '\''], [], by simp⟩)
      rw [List.cons_append, List.cons_append, splitLoop, if_neg (by simp [hdepth]),
        if_neg (by simp), if_neg (by simp), if_neg (by simp), if_neg (by simp),
        if_pos ⟨hdollar, rfl⟩, if_pos ⟨hquote, rfl⟩, List.tail_cons]
      have hkeep := @ih (s.keep ['\'', '\'']) hdollar hdepth hquote hinner
      rw [hkeep]
      simp only [SplitState.keep, List.append_assoc, List.cons_append, List.nil_append]
    · have hmore : doubled (c :: body) = c :: doubled body := by
        rw [doubled, List.flatMap_cons, if_neg hc]
        rfl
      rw [hmore] at hbody ⊢
      have hinner : ¬['$', '$'] <:+: doubled body := fun h =>
        hbody (h.trans ⟨[c], [], by simp⟩)
      have hpair : ¬(c = '$' ∧ (doubled body ++ '\'' :: rest).head? = some '$') := by
        rintro ⟨rfl, hnext⟩
        cases hb : doubled body with
        | nil => simp [hb] at hnext
        | cons d tail =>
          rw [hb, List.cons_append, List.head?_cons, Option.some.injEq] at hnext
          subst hnext
          rw [hb] at hbody
          exact hbody ⟨[], tail, rfl⟩
      rw [List.cons_append, splitLoop, if_neg (by simp [hdepth]), if_neg (by simp [hquote]),
        if_neg (by simp [hquote]), if_neg fun h => hpair h.2, if_neg fun h => hpair h.2,
        if_neg fun h => hc h.2, if_neg (by simp [hquote])]
      have hkeep := @ih (s.keep [c]) hdollar hdepth hquote hinner
      rw [hkeep]
      simp only [SplitState.keep, List.append_assoc, List.cons_append, List.nil_append]

theorem splitLoop_literal (hs : s.Clean) (h : (SqlToken.literal body).Stands rest) :
    splitLoop s ((SqlToken.literal body).render ++ rest) =
      splitLoop (s.keep (SqlToken.literal body).render) rest := by
  rw [SqlToken.render, List.cons_append, splitLoop, if_neg (by simp [hs.depth]),
    if_neg (by simp), if_neg (by simp), if_neg (by simp), if_neg (by simp),
    if_pos ⟨hs.inDollar, rfl⟩, if_neg (by simp [hs.inSingleQuote]), hs.inSingleQuote, Bool.not_false,
    List.append_assoc, List.singleton_append]
  have hinner := @splitLoop_quoted { s.keep ['\''] with inSingleQuote := true } rest body
    hs.inDollar hs.depth rfl h
  rw [hinner]
  simp only [SplitState.keep, List.append_assoc, List.cons_append, List.nil_append,
    ← hs.inSingleQuote]

theorem splitLoop_dollarQuoted (hdollar : s.inDollar = true) (hdepth : s.blockCommentDepth = 0)
    (hbody : ¬['$', '$'] <:+: body ++ ['$']) :
    splitLoop s (body ++ '$' :: '$' :: rest) =
      splitLoop { s.keep (body ++ ['$', '$']) with inDollar := false } rest := by
  induction body generalizing s with
  | nil =>
    change splitLoop s ('$' :: '$' :: rest) = _
    rw [splitLoop, if_neg (by simp [hdepth]), if_neg (by simp), if_neg (by simp),
      if_neg (by simp [hdollar]), if_pos ⟨hdollar, rfl, rfl⟩]
    rfl
  | cons c body ih =>
    have hinner : ¬['$', '$'] <:+: body ++ ['$'] := fun h => hbody (h.trans ⟨[c], [], by simp⟩)
    have hpair : ¬(c = '$' ∧ (body ++ '$' :: '$' :: rest).head? = some '$') := by
      rintro ⟨rfl, hnext⟩
      cases body with
      | nil => exact hbody ⟨[], [], rfl⟩
      | cons d tail =>
        rw [List.cons_append, List.head?_cons, Option.some.injEq] at hnext
        subst hnext
        exact hbody ⟨[], tail ++ ['$'], rfl⟩
    rw [List.cons_append, splitLoop, if_neg (by simp [hdepth]), if_neg (by simp [hdollar]),
      if_neg (by simp [hdollar]), if_neg (by simp [hdollar]), if_neg fun h => hpair h.2,
      if_neg (by simp [hdollar]), if_neg (by simp [hdollar])]
    have hkeep := @ih (s.keep [c]) hdollar hdepth hinner
    rw [hkeep]
    simp only [SplitState.keep, List.append_assoc, List.cons_append, List.nil_append]

theorem splitLoop_dollar (hs : s.Clean) (h : (SqlToken.dollar body).Stands rest) :
    splitLoop s ((SqlToken.dollar body).render ++ rest) =
      splitLoop (s.keep (SqlToken.dollar body).render) rest := by
  have hopen : ({ s.keep ['$', '$'] with inDollar := true } : SplitState).inDollar = true := rfl
  rw [SqlToken.render, List.append_assoc, List.append_assoc, List.cons_append, splitLoop,
    if_neg (by simp [hs.depth]), if_neg (by simp), if_neg (by simp),
    if_pos ⟨hs.inDollar, rfl, rfl⟩]
  change splitLoop { s.keep ['$', '$'] with inDollar := true } (body ++ '$' :: '$' :: rest) = _
  rw [splitLoop_dollarQuoted hopen hs.depth h]
  simp only [SplitState.keep, List.append_assoc, List.cons_append, List.nil_append, ← hs.inDollar]

/-- A token that is no semicolon adds what is kept of it to the statement. -/
theorem splitLoop_token {token : SqlToken} (hs : s.Clean) (hne : token ≠ .semicolon)
    (h : token.Stands rest) :
    splitLoop s (token.render ++ rest) = splitLoop (s.keep token.kept) rest := by
  have hkeep : s.keep [] = s := by
    rw [SplitState.keep, List.append_nil]
  cases token with
  | text c => exact splitLoop_text hs h
  | literal body => exact splitLoop_literal hs h
  | dollar body => exact splitLoop_dollar hs h
  | lineComment body =>
    rw [SqlToken.kept, hkeep]
    exact splitLoop_lineComment hs h
  | blockComment body =>
    rw [SqlToken.kept, hkeep]
    exact splitLoop_blockComment hs h
  | semicolon => exact absurd rfl hne

/-- What the loop leaves behind at the end of the script. -/
theorem endStatement_splitLoop {tokens : List SqlToken} (hs : s.Clean)
    (h : TokensStand [] tokens) :
    (splitLoop s (renderTokens tokens)).endStatement.statements = s.statements ++
      (((statementTexts tokens).modifyHead (s.current ++ ·)).map trimChars).filter (· ≠ []) := by
  induction tokens generalizing s with
  | nil =>
    have hempty : statementTexts [] = [[]] := rfl
    rw [renderTokens, List.flatMap_nil, splitLoop, hempty, List.modifyHead_cons, List.append_nil]
    by_cases hblank : trimChars s.current = []
    · simp [SplitState.endStatement, hblank]
    · simp [SplitState.endStatement, hblank]
  | cons token tokens ih =>
    obtain ⟨hstands, hrest⟩ := h
    rw [List.append_nil] at hstands
    have hrender : renderTokens (token :: tokens) = token.render ++ renderTokens tokens := rfl
    by_cases htoken : token = .semicolon
    · subst htoken
      have htexts : statementTexts (.semicolon :: tokens) = [] :: statementTexts tokens := by
        rw [statementTexts, List.splitOnP_cons_eq_if_modifyHead, if_pos (by simp)]
        rfl
      have hsame : (statementTexts tokens).modifyHead ([] ++ ·) = statementTexts tokens := by
        cases statementTexts tokens <;> rfl
      have hclean : s.endStatement.Clean := ⟨hs.inDollar, hs.inSingleQuote, hs.depth⟩
      have hmore := ih hclean hrest
      rw [hrender, SqlToken.render, List.singleton_append, splitLoop_semicolon hs, hmore, htexts,
        List.modifyHead_cons, List.append_nil]
      change _ ++ (((statementTexts tokens).modifyHead ([] ++ ·)).map trimChars).filter _ = _
      rw [hsame, List.map_cons]
      by_cases hblank : trimChars s.current = []
      · simp [SplitState.endStatement, hblank]
      · simp [SplitState.endStatement, hblank]
    · have htexts : statementTexts (token :: tokens) =
          (statementTexts tokens).modifyHead (token.kept ++ ·) := by
        rw [statementTexts, List.splitOnP_cons_eq_if_modifyHead, if_neg (by simpa using htoken),
          statementTexts]
        cases tokens.splitOnP (· = .semicolon) <;> rfl
      have hclean : (s.keep token.kept).Clean := ⟨hs.inDollar, hs.inSingleQuote, hs.depth⟩
      rw [hrender, splitLoop_token hs htoken hstands, ih hclean hrest, htexts]
      cases statementTexts tokens with
      | nil => rfl
      | cons text texts =>
        simp only [List.modifyHead_cons, SplitState.keep, List.append_assoc]

end Reading

/-- The statements of a script are the texts between its semicolons, without comments. -/
theorem splitSqlStatements_render {tokens : List SqlToken} (h : TokensStand [] tokens) :
    splitSqlStatements (renderTokens tokens) = statementsOf tokens := by
  have hclean : SplitState.init.Clean := ⟨rfl, rfl, rfl⟩
  have hsame : (statementTexts tokens).modifyHead ([] ++ ·) = statementTexts tokens := by
    cases statementTexts tokens <;> rfl
  have hend := endStatement_splitLoop hclean h
  change _ = [] ++ (((statementTexts tokens).modifyHead ([] ++ ·)).map trimChars).filter _ at hend
  rw [hsame, List.nil_append] at hend
  exact hend

/-- A literal, two semicolons of which one is quoted, and a comment. -/
theorem splitSqlStatements_render_sample :
    splitSqlStatements (renderTokens
        [.literal [';'], .semicolon, .blockComment [';', '*', '/'], .text 'B']) =
      statementsOf [.literal [';'], .semicolon, .blockComment [';', '*', '/'], .text 'B'] :=
  splitSqlStatements_render ⟨⟨by decide, by decide⟩, trivial,
    .skipped (.closing .done) (by decide) (by decide),
    ⟨by decide, by decide, by decide, by decide, by decide⟩, trivial⟩

example : splitSqlStatements "SELECT ';' -- a;b\n, $$x;$$ /* /* ; */ */; COMMIT".toList =
    ["SELECT ';' \n, $$x;$$".toList, "COMMIT".toList] := by
  decide +kernel

example : splitSqlStatements "SELECT '$$'; x".toList = ["SELECT '$$'; x".toList] := by
  decide +kernel

/-- A quote or a comment is not closed. Of a literal, `$$` must not stand in it. -/
inductive Unfinished : List Char → Prop
  | literal {rest : List Char} (h : ¬∃ body after, rest = doubled body ++ '\'' :: after ∧
      (SqlToken.literal body).Stands after) : Unfinished ('\'' :: rest)
  | dollar {rest : List Char} (h : ¬['$', '$'] <:+: rest) : Unfinished ('$' :: '$' :: rest)
  | comment {rest : List Char} (h : ¬∃ body after, rest = body ++ after ∧ Closes 1 body) :
      Unfinished ('/' :: '*' :: rest)

/-- The first `$$`. -/
theorem exists_first_pair {cs : List Char} (h : ['$', '$'] <:+: cs) :
    ∃ body after, cs = body ++ '$' :: '$' :: after ∧ ¬['$', '$'] <:+: body ++ ['$'] := by
  induction cs with
  | nil =>
    obtain ⟨before, after, heq⟩ := h
    simp at heq
  | cons c cs ih =>
    by_cases hpair : ∃ after, c :: cs = '$' :: '$' :: after
    · obtain ⟨after, heq⟩ := hpair
      exact ⟨[], after, heq, by decide⟩
    · have hlater : ['$', '$'] <:+: cs := by
        obtain ⟨before, after, heq⟩ := h
        cases before with
        | nil => exact absurd ⟨after, heq.symm⟩ hpair
        | cons d before =>
          rw [List.cons_append, List.cons_append, List.cons.injEq] at heq
          exact ⟨before, after, heq.2⟩
      obtain ⟨body, after, rfl, hbody⟩ := ih hlater
      refine ⟨c :: body, after, rfl, fun hinfix => ?_⟩
      obtain ⟨before, tail, heq⟩ := hinfix
      cases before with
      | nil =>
        rw [List.nil_append, List.cons_append, List.cons_append, List.cons_append,
          List.cons.injEq] at heq
        obtain ⟨rfl, heq⟩ := heq
        cases body with
        | nil => exact hpair ⟨'$' :: after, rfl⟩
        | cons d body =>
          rw [List.cons_append, List.cons.injEq] at heq
          obtain ⟨rfl, -⟩ := heq
          exact hpair ⟨body ++ '$' :: '$' :: after, rfl⟩
      | cons d before =>
        rw [List.cons_append, List.cons_append, List.cons_append, List.cons.injEq] at heq
        exact hbody ⟨before, tail, heq.2⟩

/-- Where nothing is left unfinished, a token stands. -/
theorem exists_token {c : Char} {rest : List Char} (h : ¬Unfinished (c :: rest)) :
    ∃ token : SqlToken, ∃ after, c :: rest = token.render ++ after ∧ token.Stands after := by
  by_cases hquote : c = '\''
  · subst hquote
    have hbody : ∃ body after, rest = doubled body ++ '\'' :: after ∧
        (SqlToken.literal body).Stands after := by
      by_contra hnone
      exact h (.literal hnone)
    obtain ⟨body, after, rfl, hstands⟩ := hbody
    refine ⟨.literal body, after, ?_, hstands⟩
    rw [SqlToken.render, List.cons_append, List.append_assoc, List.singleton_append]
  by_cases hsemi : c = ';'
  · subst hsemi
    exact ⟨.semicolon, rest, rfl, trivial⟩
  by_cases hline : c = '-' ∧ rest.head? = some '-'
  · obtain ⟨rfl, hhead⟩ := hline
    obtain ⟨tail, rfl⟩ := List.head?_eq_some_iff.mp hhead
    refine ⟨.lineComment (tail.takeWhile (· ≠ '\n')), tail.dropWhile (· ≠ '\n'), ?_, ?_, ?_⟩
    · rw [SqlToken.render, List.append_assoc, List.takeWhile_append_dropWhile]
      rfl
    · intro hmem
      have hne := List.mem_takeWhile_imp hmem
      simp at hne
    · intro d hd
      have hne := List.head?_dropWhile_not (fun x : Char => decide (x ≠ '\n')) tail
      rw [Option.mem_def.mp hd] at hne
      simpa using hne
  by_cases hblock : c = '/' ∧ rest.head? = some '*'
  · obtain ⟨rfl, hhead⟩ := hblock
    obtain ⟨tail, rfl⟩ := List.head?_eq_some_iff.mp hhead
    have hbody : ∃ body after, tail = body ++ after ∧ Closes 1 body := by
      by_contra hnone
      exact h (.comment hnone)
    obtain ⟨body, after, rfl, hcloses⟩ := hbody
    exact ⟨.blockComment body, after, rfl, hcloses⟩
  by_cases hdollar : c = '$' ∧ rest.head? = some '$'
  · obtain ⟨rfl, hhead⟩ := hdollar
    obtain ⟨tail, rfl⟩ := List.head?_eq_some_iff.mp hhead
    have hpair : ['$', '$'] <:+: tail := by
      by_contra hnone
      exact h (.dollar hnone)
    obtain ⟨body, after, rfl, hbody⟩ := exists_first_pair hpair
    refine ⟨.dollar body, after, ?_, hbody⟩
    simp [SqlToken.render]
  · exact ⟨.text c, rest, rfl, hquote, hsemi, hline, hblock, hdollar⟩

theorem SqlToken.length_render_pos (token : SqlToken) : 0 < token.render.length := by
  cases token <;> simp [render]

/-- Every script is made of tokens, up to a quote or comment that is not closed; without one, its
statements are those of the tokens. -/
theorem splitSqlStatements_reads (sql : List Char) : ∃ tokens tail,
    sql = renderTokens tokens ++ tail ∧ TokensStand tail tokens ∧
      (Unfinished tail ∨ tail = [] ∧ splitSqlStatements sql = statementsOf tokens) := by
  have hread : ∃ tokens tail, sql = renderTokens tokens ++ tail ∧ TokensStand tail tokens ∧
      (Unfinished tail ∨ tail = []) := by
    induction hn : sql.length using Nat.strong_induction_on generalizing sql with
    | _ n ih =>
      cases sql with
      | nil => exact ⟨[], [], rfl, trivial, .inr rfl⟩
      | cons c rest =>
        by_cases hunfinished : Unfinished (c :: rest)
        · exact ⟨[], c :: rest, rfl, trivial, .inl hunfinished⟩
        · obtain ⟨token, after, heq, hstands⟩ := exists_token hunfinished
          have hpos := token.length_render_pos
          have hlength := congrArg List.length heq
          rw [List.length_append, hn] at hlength
          obtain ⟨tokens, tail, hafter, htokens, hend⟩ := ih after.length (by omega) after rfl
          refine ⟨token :: tokens, tail, ?_, ⟨hafter ▸ hstands, htokens⟩, hend⟩
          rw [heq, hafter, ← List.append_assoc]
          rfl
  obtain ⟨tokens, tail, heq, htokens, hend⟩ := hread
  refine ⟨tokens, tail, heq, htokens, hend.imp_right ?_⟩
  rintro rfl
  rw [List.append_nil] at heq
  exact ⟨rfl, heq ▸ splitSqlStatements_render htokens⟩

end Reminisce
