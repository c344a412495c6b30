import IndexedSequence.Json.Codec

set_option autoImplicit false

namespace IndexedSequence

namespace Json

/-- What may stand behind a document: nothing, or what goes on with an array. -/
inductive Follows : List Char → Prop
  | nothing : Follows []
  | comma (later : List Char) : Follows (',' :: later)
  | bracket (later : List Char) : Follows (']' :: later)

namespace Reader

def lengthened (significand : Nat) (digits : List Nat) : Nat :=
  digits.foldl (fun value digit => value * 10 + digit) significand

def numeral (negative : Bool) (n : Nat) : Numeral :=
  ⟨negative, (Nat.toDigits 10 n).map digit, none, none⟩

theorem lengthened_toDigits (n : Nat) : lengthened 0 ((Nat.toDigits 10 n).map digit) = n := by
  have value := Nat.ofDigitChars_toDigits (b := 10) (n := n) (by decide) (by decide)
  rw [Nat.ofDigitChars_eq_foldl] at value
  rw [lengthened, List.foldl_map]
  simpa only [Nat.mul_comm, digit] using value

theorem toDigits_of_leading_zero {n : Nat} {rest : List Nat}
    (h : (Nat.toDigits 10 n).map digit = 0 :: rest) : rest = [] := by
  induction n using Nat.strongRecOn generalizing rest with
  | ind n ih =>
    rw [Nat.toDigits_eq_if (by decide)] at h
    split at h
    · exact (List.cons.inj h).2.symm
    · next large =>
      rw [List.map_append] at h
      cases before : (Nat.toDigits 10 (n / 10)).map digit with
      | nil => exact absurd (List.map_eq_nil_iff.mp before) Nat.toDigits_ne_nil
      | cons d ds =>
        rw [before, List.cons_append] at h
        obtain ⟨rfl, -⟩ := List.cons.inj h
        obtain rfl := ih (n / 10) (by omega) before
        have value := lengthened_toDigits (n / 10)
        rw [before] at value
        change 0 = n / 10 at value
        omega

theorem whole?_toDigits (n : Nat) {rest : List Char} (follows : Follows rest) :
    whole? (Nat.toDigits 10 n ++ rest) = some ((Nat.toDigits 10 n).map digit, rest) := by
  have all : ∀ c ∈ Nat.toDigits 10 n, c.isDigit = true :=
    fun c mem => Nat.isDigit_of_mem_toDigits (by decide) (by decide) mem
  have found : digits (Nat.toDigits 10 n ++ rest) = ((Nat.toDigits 10 n).map digit, rest) := by
    rw [digits, List.takeWhile_append_of_pos all, List.dropWhile_append_of_pos all]
    cases follows <;> simp
  rw [whole?, digits?, found]
  cases shape : (Nat.toDigits 10 n).map digit with
  | nil => exact absurd (List.map_eq_nil_iff.mp shape) Nat.toDigits_ne_nil
  | cons d ds =>
    cases d with
    | zero =>
      rw [toDigits_of_leading_zero shape]
      rfl
    | succ d => rfl

theorem le_lengthened (significand : Nat) (digits : List Nat) : significand ≤ lengthened significand digits := by
  induction digits generalizing significand with
  | nil => exact Nat.le_refl significand
  | cons d ds ih =>
    have later : significand * 10 + d ≤ lengthened significand (d :: ds) := ih (significand * 10 + d)
    omega

/-- No digit is left out of a number that fits 64 bits. -/
theorem absorb_eq (significand taken : Nat) (digits : List Nat)
    (fits : lengthened significand digits ≤ Numeral.greatest) :
    Numeral.absorb significand taken digits = (lengthened significand digits, taken + digits.length) := by
  induction digits generalizing significand taken with
  | nil => rfl
  | cons d ds ih =>
    have grown : significand * 10 + d ≤ lengthened significand (d :: ds) := le_lengthened _ ds
    rw [Numeral.absorb, if_pos (Nat.le_trans grown fits), ih _ _ fits, List.length_cons, Nat.add_assoc,
      Nat.add_comm 1]
    rfl

theorem numeral_value? {negative : Bool} {n : Nat} {signed : Int} (fits : n < twoPow 64)
    (known : (numeral negative n).integer? n = some signed) :
    (numeral negative n).value? = some (.integer signed) := by
  have value := lengthened_toDigits n
  have small : n ≤ Numeral.greatest := Nat.le_sub_one_of_lt fits
  have absorbed := absorb_eq 0 0 (numeral negative n).whole (Nat.le_trans (Nat.le_of_eq value) small)
  rw [numeral, value, Nat.zero_add] at absorbed
  rw [numeral] at known ⊢
  simp only [Numeral.value?, absorbed, Nat.sub_self, Option.isNone_none, Bool.and_self, beq_self_eq_true,
    if_true, known]

theorem number?_toDigits {negative : Bool} {n : Nat} {signed : Int} {rest : List Char}
    (follows : Follows rest) (fits : n < twoPow 64)
    (known : (numeral negative n).integer? n = some signed) :
    number? negative (Nat.toDigits 10 n ++ rest) = some (.integer signed, rest) := by
  have fraction : fraction? rest = some (none, rest) := by cases follows <;> rfl
  have exponent : exponent? rest = some (none, rest) := by cases follows <;> rfl
  have value : Numeral.value? ⟨negative, (Nat.toDigits 10 n).map digit, none, none⟩ = some (.integer signed) :=
    numeral_value? fits known
  simp only [number?, whole?_toDigits n follows, Option.bind_eq_bind, Option.bind_some, fraction, exponent,
    value, Option.pure_def]

theorem hexDigit?_digitChar : ∀ d < 16, hexDigit? (Nat.digitChar d) = some d := by decide

theorem escaped?_control {n : Nat} (control : n < 0x20) (text : List Char) :
    escaped? ('u' :: '0' :: '0' :: Nat.digitChar (n / 16) :: Nat.digitChar (n % 16) :: text) =
      some (Char.ofNat n, text) := by
  have value : ((0 * 16 + 0) * 16 + n / 16) * 16 + n % 16 = n := by omega
  have unit : unit? ('0' :: '0' :: Nat.digitChar (n / 16) :: Nat.digitChar (n % 16) :: text) =
      some (n, text) := by
    have zero : hexDigit? '0' = some 0 := by decide
    simp only [unit?, zero, hexDigit?_digitChar (n / 16) (by omega), hexDigit?_digitChar (n % 16) (by omega),
      Option.bind_eq_bind, Option.bind_some, Option.pure_def, value]
  change codePoint? _ = _
  simp only [codePoint?, unit, Option.bind_eq_bind, Option.bind_some, Option.pure_def]
  rw [if_neg (by omega), if_neg (by omega)]

theorem controlText_toList {n : Nat} (control : n < 0x20) :
    (if n < 0x10 then "\\u000" ++ Text.hexDigits n else "\\u00" ++ Text.hexDigits n).toList =
      ['\\', 'u', '0', '0', Nat.digitChar (n / 16), Nat.digitChar (n % 16)] := by
  have digits : Text.hexDigits n = String.ofList (Nat.toDigits 16 n) := rfl
  rw [Nat.toDigits_eq_if (by decide)] at digits
  split
  · next small =>
    rw [if_pos small] at digits
    rw [digits, Nat.div_eq_of_lt small, Nat.mod_eq_of_lt small, String.toList_append, String.toList_ofList,
      String.toList_ofList]
    rfl
  · next large =>
    rw [if_neg large, Nat.toDigits_of_lt_base (by omega)] at digits
    rw [digits, String.toList_append, String.toList_ofList, String.toList_ofList]
    rfl

theorem escapedChar_toList (c : Char) :
    (escapedChar c).toList = [c] ∧ 0x20 ≤ c.toNat ∧ c ≠ '"' ∧ c ≠ '\\' ∨
      ∃ code, (escapedChar c).toList = '\\' :: code ∧ ∀ text, escaped? (code ++ text) = some (c, text) := by
  unfold escapedChar
  split
  iterate 7 exact .inr ⟨_, rfl, fun text => rfl⟩
  next quote backslash _ _ _ _ _ =>
    by_cases control : c.toNat < 0x20
    · refine .inr ⟨['u', '0', '0', Nat.digitChar (c.toNat / 16), Nat.digitChar (c.toNat % 16)], ?_, ?_⟩
      · rw [if_pos control]
        exact controlText_toList control
      · intro text
        have read := escaped?_control control text
        rw [Char.ofNat_toNat] at read
        exact read
    · rw [if_neg (by omega), if_neg control]
      exact .inl ⟨String.toList_singleton c, by omega, quote, backslash⟩

def escapedText (chars : List Char) : List Char :=
  chars.flatMap fun c => (escapedChar c).toList

theorem escapedText_cons (c : Char) (chars : List Char) :
    escapedText (c :: chars) = (escapedChar c).toList ++ escapedText chars := List.flatMap_cons

/-- The step lemma of reading a string: one character of it, however it is written. -/
theorem string?_escapedChar {bound : Nat} (read : List Char) (c : Char) (text : List Char) :
    string? (bound + 1) read ((escapedChar c).toList ++ text) = string? bound (c :: read) text := by
  obtain ⟨plain, visible, quote, backslash⟩ | ⟨code, escaped, back⟩ := escapedChar_toList c
  · rw [plain]
    change string? (bound + 1) read (c :: text) = _
    rw [string?, if_neg (by omega)]
    · exact quote
    · exact backslash
  · rw [escaped]
    change (escaped? (code ++ text) >>= fun found => string? bound (found.1 :: read) found.2) = _
    rw [back]
    rfl

theorem length_escapedChar_pos (c : Char) : 0 < (escapedChar c).toList.length := by
  obtain ⟨plain, -⟩ | ⟨code, escaped, -⟩ := escapedChar_toList c
  · rw [plain]
    exact Nat.one_pos
  · rw [escaped]
    exact Nat.succ_pos _

theorem string?_escapedText {bound : Nat} (read chars rest : List Char)
    (enough : (escapedText chars).length < bound) :
    string? bound read (escapedText chars ++ '"' :: rest) =
      some (String.ofList (read.reverse ++ chars), rest) := by
  induction chars generalizing bound read with
  | nil =>
    cases bound with
    | zero => cases enough
    | succ bound =>
      rw [List.append_nil]
      rfl
  | cons c chars ih =>
    rw [escapedText_cons, List.length_append] at enough
    have first := length_escapedChar_pos c
    cases bound with
    | zero => omega
    | succ bound =>
      rw [escapedText_cons, List.append_assoc, string?_escapedChar, ih (c :: read) (by omega),
        List.reverse_cons, List.append_assoc]
      rfl

theorem stringText_toList (value : String) :
    (stringText value).toList = '"' :: escapedText value.toList ++ ['"'] := by
  rw [stringText, String.toList_append, String.toList_append, String.toList_join, List.flatMap_map]
  rfl

theorem value?_digit {bound depth d : Nat} (small : d < 10) (text : List Char) :
    value? (bound + 1) depth (Nat.digitChar d :: text) = number? false (Nat.digitChar d :: text) := by
  match d, small with
  | 0, _ | 1, _ | 2, _ | 3, _ | 4, _ | 5, _ | 6, _ | 7, _ | 8, _ | 9, _ => rfl

theorem skipBlanks_cons {c : Char} (text : List Char) (visible : isBlank c = false) :
    skipBlanks (c :: text) = c :: text :=
  List.dropWhile_cons_of_neg (by rw [visible]; exact Bool.false_ne_true)

theorem toDigits_eq_cons (n : Nat) : ∃ d ds, d < 10 ∧ Nat.toDigits 10 n = Nat.digitChar d :: ds := by
  induction n using Nat.strongRecOn with
  | ind n ih =>
    rw [Nat.toDigits_eq_if (by decide)]
    split
    · next small => exact ⟨n, [], small, rfl⟩
    · next large =>
      obtain ⟨d, ds, small, first⟩ := ih (n / 10) (by omega)
      exact ⟨d, ds ++ [Nat.digitChar (n % 10)], small, by rw [first]; rfl⟩

theorem digitChar_opens :
    ∀ d < 10, isBlank (Nat.digitChar d) = false ∧ Nat.digitChar d ≠ ']' := by decide

theorem value?_natural {bound depth n : Nat} {rest : List Char} (fits : n < twoPow 64) (follows : Follows rest) :
    value? (bound + 1) depth (Nat.toDigits 10 n ++ rest) = some (.integer n, rest) := by
  have number : number? false (Nat.toDigits 10 n ++ rest) = some (.integer n, rest) :=
    number?_toDigits follows fits rfl
  obtain ⟨d, ds, small, first⟩ := toDigits_eq_cons n
  rw [first] at number ⊢
  rw [List.cons_append, value?_digit small]
  exact number

theorem value?_negative {bound depth n : Nat} {rest : List Char} (pos : 0 < n) (fits : n ≤ twoPow 63)
    (follows : Follows rest) :
    value? (bound + 1) depth ('-' :: (Nat.toDigits 10 n ++ rest)) = some (.integer (-(n : Int)), rest) := by
  have below : twoPow 63 < twoPow 64 := by decide
  have known : (numeral true n).integer? n = some (-(n : Int)) := by
    change (if 0 < n ∧ n ≤ twoPow 63 then some (-(n : Int)) else none) = _
    rw [if_pos ⟨pos, fits⟩]
  exact number?_toDigits follows (Nat.lt_of_le_of_lt fits below) known

theorem items?_last {bound depth : Nat} {text rest : List Char} {entry : Json} (read : List Json)
    (h : value? bound depth text = some (entry, ']' :: rest)) :
    items? (bound + 1) depth read text = some (.array (read.reverse ++ [entry]), rest) := by
  rw [items?, h, ← List.reverse_cons]
  rfl

theorem items?_next {bound depth : Nat} {text rest : List Char} {entry : Json} (read : List Json)
    (h : value? bound depth text = some (entry, ',' :: rest)) :
    items? (bound + 1) depth read text = items? bound depth (entry :: read) rest := by
  rw [items?, h]
  rfl

theorem value?_string {bound depth : Nat} (value : String) (rest : List Char)
    (enough : (stringText value).toList.length ≤ bound) :
    value? bound depth ((stringText value).toList ++ rest) = some (.string value, rest) := by
  rw [stringText_toList] at enough ⊢
  cases bound with
  | zero => cases enough
  | succ bound =>
    rw [List.length_append, List.length_cons, List.length_singleton] at enough
    have fewer : (escapedText value.toList).length < bound := by omega
    have chars := string?_escapedText [] value.toList rest fewer
    rw [List.append_assoc, List.cons_append]
    change (string? bound [] _ >>= fun found => some (Json.string found.1, found.2)) = _
    rw [List.singleton_append, chars, List.reverse_nil, List.nil_append, String.ofList_toList]
    rfl

theorem value?_array {bound depth : Nat} {c : Char} (text : List Char) (visible : isBlank c = false) (opens : c ≠ ']') :
    value? (bound + 1) (depth + 1) ('[' :: c :: text) = items? bound depth [] (c :: text) := by
  have outer : skipBlanks ('[' :: c :: text) = '[' :: c :: text := rfl
  simp only [value?, outer, skipBlanks_cons text visible]
  split
  · next same => exact absurd same (Nat.succ_ne_zero depth)
  · next same => exact absurd (List.cons.inj same).1 opens
  · next deeper _ =>
    cases deeper
    rfl

end Reader

open Reader

theorem text_integer (n : Int) : (integer n).text.toList =
    if n < 0 then '-' :: Nat.toDigits 10 n.natAbs else Nat.toDigits 10 n.natAbs := by
  cases n with
  | ofNat n => exact String.toList_ofList
  | negSucc n =>
    change ("-" ++ (n + 1).repr).toList = _
    rw [if_pos (Int.negSucc_lt_zero n), String.toList_append, Nat.repr_eq_ofList_toDigits, String.toList_ofList,
      String.toList_ofList]
    rfl

theorem textAll_eq (entries : List Json) : textAll entries = entries.map text := by
  induction entries with
  | nil => rfl
  | cons entry rest ih => rw [textAll, ih, List.map_cons]

def entriesText (entries : List Json) : List Char :=
  [','].intercalate (entries.map fun entry => entry.text.toList)

theorem entriesText_singleton (entry : Json) : entriesText [entry] = entry.text.toList :=
  List.intercalate_singleton

theorem entriesText_cons (entry next : Json) (later : List Json) :
    entriesText (entry :: next :: later) = entry.text.toList ++ ',' :: entriesText (next :: later) := by
  rw [entriesText, List.map_cons, List.map_cons, List.intercalate_cons_cons, List.append_assoc]
  rfl

theorem text_array (entries : List Json) :
    (array entries).text.toList = '[' :: (entriesText entries ++ [']']) := by
  rw [text, textAll_eq, String.toList_append, String.toList_append, String.toList_intercalate, List.map_map]
  rfl

/-- Its own text is read as the document, and no further than to its end. -/
def ReadsBack (depth : Nat) (document : Json) : Prop :=
  ∀ {bound : Nat} {rest : List Char}, document.text.toList.length ≤ bound → Follows rest →
    value? bound depth (document.text.toList ++ rest) = some (document, rest)

theorem items?_entriesText {bound depth : Nat} {entry : Json} {later : List Json} (read : List Json)
    (rest : List Char) (each : ∀ known ∈ entry :: later, known.ReadsBack depth)
    (enough : (entriesText (entry :: later)).length < bound) :
    items? bound depth read (entriesText (entry :: later) ++ ']' :: rest) =
      some (.array (read.reverse ++ entry :: later), rest) := by
  induction later generalizing bound entry read with
  | nil =>
    cases bound with
    | zero => cases enough
    | succ bound =>
      rw [entriesText_singleton] at enough ⊢
      exact items?_last read (each entry List.mem_cons_self (Nat.le_of_lt_succ enough) (.bracket rest))
  | cons next later ih =>
    cases bound with
    | zero => cases enough
    | succ bound =>
      -- An entry takes one from the bound, and the comma behind it one from the text.
      rw [List.forall_mem_cons] at each
      rw [entriesText_cons, List.length_append, List.length_cons] at enough
      have fewer : entry.text.toList.length ≤ bound := by omega
      have first := each.1 fewer (.comma (entriesText (next :: later) ++ ']' :: rest))
      rw [entriesText_cons, List.append_assoc, List.cons_append, items?_next read first,
        ih (entry :: read) each.2 (by omega), List.reverse_cons, List.append_assoc]
      rfl

theorem Plain.opens {depth : Nat} {document : Json} (plain : document.Plain depth) :
    ∃ c later, document.text.toList = c :: later ∧ isBlank c = false ∧ c ≠ ']' := by
  cases plain with
  | @integer _ n low high =>
    rw [text_integer]
    split
    · exact ⟨_, _, rfl, by decide, by decide⟩
    · obtain ⟨d, ds, small, first⟩ := toDigits_eq_cons n.natAbs
      exact ⟨_, _, first, digitChar_opens d small⟩
  | string value => exact ⟨_, _, stringText_toList value, by decide, by decide⟩
  | array each => exact ⟨_, _, text_array _, by decide, by decide⟩

theorem Plain.opens_entries {depth : Nat} {entry : Json} (plain : entry.Plain depth) (later : List Json) :
    ∃ c text, entriesText (entry :: later) = c :: text ∧ isBlank c = false ∧ c ≠ ']' := by
  obtain ⟨c, text, opened, visible⟩ := plain.opens
  cases later with
  | nil => exact ⟨c, text, by rw [entriesText_singleton, opened], visible⟩
  | cons next later => exact ⟨c, _, by rw [entriesText_cons, opened, List.cons_append], visible⟩

theorem readsBack_integer {depth : Nat} {n : Int} (low : -(twoPow 63 : Int) ≤ n) (high : n < twoPow 64) :
    (integer n).ReadsBack depth := by
  intro bound rest enough follows
  obtain ⟨c, later, opened, -⟩ := (Plain.integer low high : (integer n).Plain depth).opens
  rw [opened] at enough
  cases bound with
  | zero => cases enough
  | succ bound =>
    rw [text_integer]
    split
    · next negative =>
      have value : n = -(n.natAbs : Int) := by omega
      rw [List.cons_append, value?_negative (by omega) (by omega) follows, ← value]
    · have value : n = (n.natAbs : Int) := by omega
      rw [value?_natural (by omega) follows, ← value]

theorem readsBack_array {depth : Nat} {entries : List Json} (plain : ∀ entry ∈ entries, entry.Plain depth)
    (each : ∀ entry ∈ entries, entry.ReadsBack depth) : (array entries).ReadsBack (depth + 1) := by
  intro bound rest enough follows
  rw [text_array] at enough ⊢
  rw [List.length_cons, List.length_append, List.length_singleton] at enough
  cases bound with
  | zero => cases enough
  | succ bound =>
    cases entries with
    | nil => rfl
    | cons entry later =>
      have fewer : (entriesText (entry :: later)).length < bound := by omega
      have items := items?_entriesText [] rest each fewer
      obtain ⟨c, text, opened, visible, more⟩ := (plain entry List.mem_cons_self).opens_entries later
      rw [opened] at items ⊢
      rw [List.cons_append, List.append_assoc, List.cons_append, List.singleton_append,
        value?_array _ visible more]
      exact items

theorem Plain.readsBack {depth : Nat} {document : Json} (plain : document.Plain depth) :
    document.ReadsBack depth := by
  induction plain with
  | integer low high => exact readsBack_integer low high
  | string value => exact fun enough _ => value?_string value _ enough
  | array plain each => exact readsBack_array plain each

theorem Plain.read?_text {document : Json} (plain : document.Plain deepest) :
    read? document.text = some document := by
  have enough : document.text.toList.length ≤ 2 * document.text.toList.length + 2 := by omega
  have back := plain.readsBack enough .nothing
  rw [List.append_nil] at back
  rw [read?]
  simp only [back, Option.bind_eq_bind, Option.bind_some]
  rfl

end Json

end IndexedSequence
