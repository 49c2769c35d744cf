import Postio.Search.SpelledDates

set_option autoImplicit false

namespace Postio.Search

/-! Which clauses are read back from their spelling. -/

/-- A value without a double quote: none with one can be written. -/
def Single.QuoteFree : Single -> Prop
  | .name _ value => '"' ∉ value
  | .withAddresses addresses => ∀ address ∈ addresses, '"' ∉ address
  | .header named value => '"' ∉ named ∧ ∀ text ∈ value, '"' ∉ text
  | _ => True

/-- What the parser makes of a value. -/
def Single.Usable : Single -> Prop
  | .name _ value => value ≠ []
  | .withAddresses addresses => addresses ≠ [] ∧ ∀ address ∈ addresses, address ≠ [] ∧ Lines.trim address = address ∧ ',' ∉ address
  | .header named value => named ≠ [] ∧ normalizeName named = named ∧ '=' ∉ named ∧ ∀ text ∈ value, text ≠ []
  | .larger bytes | .smaller bytes => ∃ text, parseSize text = some bytes
  | _ => True

/-! ### What the parser makes -/

variable (env : Env) (char : Char) {A : Type} (addresses : List Text) (value : Text) {B : Type} (single : Single)
    (today : NaiveDate)

theorem toLower_cases : char.toLower = char ∨ Lines.isWhitespace char = false ∧
    Lines.isWhitespace char.toLower = false ∧ char.toLower.toLower = char.toLower ∧ char.toLower ≠ '=' := by
  by_cases upper : 'A'.val ≤ char.val ∧ char.val ≤ 'Z'.val
  case neg =>
    left
    unfold Char.toLower
    rw [dif_neg]
    exact fun ⟨low, high⟩ => upper ⟨low, high⟩
  case pos =>
    right
    have low : 65 ≤ char.toNat := UInt32.le_iff_toNat_le.mp upper.1
    have high : char.toNat ≤ 90 := UInt32.le_iff_toNat_le.mp upper.2
    have every : ∀ number : Fin 26, (fun char => Lines.isWhitespace char = false ∧
        Lines.isWhitespace char.toLower = false ∧ char.toLower.toLower = char.toLower ∧ char.toLower ≠ '=')
        (Char.ofNat (65 + number.val)) := by
      decide
    have same : Char.ofNat (65 + (char.toNat - 65)) = char := by
      rw [Nat.add_sub_cancel' low, Char.ofNat_toNat]
    have here := every ⟨char.toNat - 65, by omega⟩
    simp only [same] at here
    exact here

theorem isWhitespace_toLower : Lines.isWhitespace char.toLower = Lines.isWhitespace char := by
  rcases toLower_cases char with same | ⟨solid, also, -, -⟩
  next => rw [same]
  next => rw [solid, also]

theorem normalizeName_self (name : Text) : normalizeName (normalizeName name) = normalizeName name := by
  obtain ⟨heads, lasts⟩ := Lines.trim_ends name
  have trimmed : Lines.trim (normalizeName name) = normalizeName name := by
    refine Lines.trim_self _ ?_ ?_
    next =>
      intro char head
      rw [normalizeName, asciiLower, List.head?_map] at head
      obtain ⟨other, first, rfl⟩ := Option.map_eq_some_iff.mp head
      rw [isWhitespace_toLower]
      exact heads other first
    next =>
      intro char last
      rw [normalizeName, asciiLower, List.getLast?_map] at last
      obtain ⟨other, final, rfl⟩ := Option.map_eq_some_iff.mp last
      rw [isWhitespace_toLower]
      exact lasts other final
  have twice : ∀ text : Text, asciiLower (asciiLower text) = asciiLower text := by
    intro text
    unfold asciiLower
    rw [List.map_map]
    refine List.map_congr_left fun char _ => ?_
    rcases toLower_cases char with same | ⟨-, -, again, -⟩
    next => rw [Function.comp_apply, same, same]
    next => exact again
  rw [normalizeName, trimmed, normalizeName, twice]

theorem unquote_sublist (text : Text) : (unquote text).Sublist text :=
  (List.rdropWhile_prefix _ _).sublist.trans (List.dropWhile_sublist _)

theorem addressList_usable (address : Text) (inside : address ∈ addressList value) :
    address ≠ [] ∧ Lines.trim address = address ∧ ',' ∉ address := by
  obtain ⟨among, filled⟩ := List.mem_filter.mp inside
  obtain ⟨part, piece, rfl⟩ := List.mem_map.mp among
  refine ⟨of_decide_eq_true filled, Lines.trim_self _ (Lines.trim_ends part).1 (Lines.trim_ends part).2, ?_⟩
  exact fun comma => Separated.split_apart ',' value part piece ((Lines.trim_sublist part).subset comma)

theorem mem_of_lookup [BEq A] [LawfulBEq A] (key : A) (value : B) (pairs : List (A × B))
    (found : pairs.lookup key = some value) : (key, value) ∈ pairs := by
  induction pairs with
  | nil => cases found
  | cons pair pairs ih =>
    rw [List.lookup_cons] at found
    split at found
    next same =>
      cases found
      rw [eq_of_beq same]
      exact List.mem_cons_self
    next => exact List.mem_cons_of_mem _ (ih found)

theorem readValue_usable (value : Text) (field : Field) (single : Single) (filled : value ≠ [])
    (read : readValue env today value field = some single) : single.Usable ∧ single.field = field := by
  cases field with
  | name field =>
    cases read
    exact ⟨filled, rfl⟩
  | withAddresses =>
    simp only [readValue] at read
    split at read
    next => cases read
    next some_address =>
      cases read
      exact ⟨⟨by simpa using some_address, addressList_usable value⟩, rfl⟩
  | has =>
    have known : ∀ spelling ∈ hasSpellings, spelling.2.Usable ∧ spelling.2.field = .has := by
      intro spelling inside
      simp only [hasSpellings, List.mem_cons, List.not_mem_nil, or_false] at inside
      rcases inside with rfl | rfl | rfl | rfl | rfl | rfl | rfl <;> exact ⟨trivial, rfl⟩
    simp only [readValue] at read
    exact known _ (mem_of_lookup _ single _ read)
  | is =>
    obtain ⟨state, -, rfl⟩ := Option.map_eq_some_iff.mp read
    exact ⟨trivial, rfl⟩
  | before | after =>
    obtain ⟨date, -, rfl⟩ := Option.map_eq_some_iff.mp read
    exact ⟨trivial, rfl⟩
  | larger | smaller =>
    obtain ⟨bytes, size, rfl⟩ := Option.map_eq_some_iff.mp read
    exact ⟨⟨value, size⟩, rfl⟩
  | header => cases read

theorem headerParts_front (raw : Text) : '=' ∉ (headerParts raw).1 := by
  unfold headerParts
  split
  next name value cut => exact (Lines.splitOnce_some '=' raw name value cut).2
  next whole => exact Lines.splitOnce_absent '=' raw whole

theorem mapM_some (read : A -> Option B) (items : List A) (values : List B) (made : items.mapM read = some values) :
    ∀ value ∈ values, ∃ item ∈ items, read item = some value := by
  induction items generalizing values with
  | nil =>
    cases made
    simp
  | cons item items ih =>
    rw [List.mapM_cons] at made
    obtain ⟨first, here, made⟩ := Option.bind_eq_some_iff.mp made
    obtain ⟨rest, further, made⟩ := Option.bind_eq_some_iff.mp made
    cases made
    intro value inside
    rcases List.mem_cons.mp inside with rfl | inside
    next => exact ⟨item, List.mem_cons_self, here⟩
    next =>
      obtain ⟨other, among, found⟩ := ih rest further value inside
      exact ⟨other, List.mem_cons_of_mem _ among, found⟩

theorem operator_usable (negated : Bool) (field : Field) (raw : Text) (clause : Clause)
    (made : operator env today negated field raw = .filter clause) : ∀ single ∈ clause.filter.alternatives, single.Usable := by
  unfold operator at made
  split at made
  next =>
    -- A header's name and value are normalized.
    unfold header at made
    simp only at made
    split at made
    next => cases made
    next some_name =>
      cases made
      intro single inside
      obtain rfl := List.mem_singleton.mp inside
      refine ⟨by simpa using some_name, normalizeName_self _, ?_, ?_⟩
      next =>
        intro inside
        obtain ⟨char, among, same⟩ := List.mem_map.mp inside
        rcases toLower_cases char with kept | ⟨-, -, -, other⟩
        next =>
          rw [kept] at same
          subst same
          exact headerParts_front raw ((unquote_sublist _).subset ((Lines.trim_sublist _).subset among))
        next => exact other same
      next =>
        intro text inside
        obtain ⟨-, filled⟩ := Option.mem_filter_iff.mp inside
        simpa using filled
  next =>
    split at made
    next =>
      split at made
      next filter read =>
        cases made
        unfold set at read
        split at read
        next =>
          obtain ⟨within, -, read⟩ := Option.bind_eq_some_iff.mp read
          split at read
          next => cases read
          next =>
            obtain ⟨members, each, read⟩ := Option.bind_eq_some_iff.mp read
            rw [ofMembers_alternatives members filter read]
            intro single inside
            obtain ⟨word, -, found⟩ := mapM_some _ _ members each single inside
            unfold member at found
            split at found
            next => cases found
            split at found
            next => cases found
            next filled => exact (readValue_usable env today _ field single (by simpa using filled) found).1
        next => cases read
      next => cases made
    next =>
      simp only at made
      split at made
      next => cases made
      next filled =>
        split at made
        next single read =>
          cases made
          intro other inside
          obtain rfl := List.mem_singleton.mp inside
          exact (readValue_usable env today _ field other (by simpa using filled) read).1
        next => cases made

/-! ### A value read again -/

theorem unquote_plain (text : Text) (no_quote : '"' ∉ text) : unquote text = text := by
  unfold unquote
  have kept : text.dropWhile isQuote = text := by
    cases text with
    | nil => rfl
    | cons char text =>
      rw [List.mem_cons, not_or] at no_quote
      rw [List.dropWhile_cons_of_neg (by simpa [isQuote] using Ne.symm no_quote.1)]
  rw [kept, List.rdropWhile_eq_self_iff]
  intro filled
  have inside := List.getLast_mem filled
  simp only [isQuote, decide_eq_true_eq]
  intro same
  rw [same] at inside
  exact no_quote inside

theorem unquote_wrapped (no_quote : '"' ∉ value) : unquote ('"' :: value ++ ['"']) = value := by
  have plain := unquote_plain value no_quote
  unfold unquote at plain ⊢
  have last : ∀ text : Text, (text ++ ['"']).rdropWhile isQuote = text.rdropWhile isQuote := by
    intro text
    exact List.rdropWhile_concat_pos _ _ _ rfl
  have first : ('"' :: value ++ ['"']).dropWhile isQuote = (value ++ ['"']).dropWhile isQuote := rfl
  rw [first]
  cases value with
  | nil => rfl
  | cons char value =>
    rw [List.mem_cons, not_or] at no_quote
    have other : isQuote char = false := by simpa [isQuote] using Ne.symm no_quote.1
    rw [List.cons_append, List.dropWhile_cons_of_neg (by simp [other]), ← List.cons_append, last]
    rwa [List.dropWhile_cons_of_neg (by simp [other])] at plain

theorem unquote_quoted (no_quote : '"' ∉ value) : unquote (quoted value) = value := by
  rcases quoted_cases value with wrapped | ⟨bare, -, -⟩
  next => rw [wrapped, unquote_wrapped value no_quote]
  next => rw [bare, unquote_plain value no_quote]

theorem quoted_head : (quoted value).head? ≠ some '{' := by
  rcases quoted_cases value with wrapped | ⟨bare, filled, solid⟩
  next =>
    rw [wrapped]
    simp
  next =>
    rw [bare]
    intro head
    exact (solid '{' (List.mem_of_head? head)).2.1 rfl

def Single.plain : Single -> Text
  | .name _ value => value
  | .withAddresses addresses => Separated.join ',' addresses
  | other => spellValue other

def Single.DayHolds : Single -> Prop
  | .after date | .before date => 1000 ≤ date.date.year ∧ date.date.year ≤ 9999
  | _ => True

theorem join_no_quote (no_quote : ∀ address ∈ addresses, '"' ∉ address) :
    '"' ∉ Separated.join ',' addresses := by
  intro inside
  rcases Separated.mem_join ',' addresses '"' inside with same | ⟨address, among, within⟩
  next => cases same
  next => exact no_quote address among within

theorem spellSize_plain (bytes : Nat) : spellSize bytes ≠ [] ∧ ∀ char ∈ spellSize bytes, char.isDigit = true ∨ char.isAlpha = true := by
  have digits : ∀ count : Nat, Nat.toDigits 10 count ≠ [] ∧ ∀ char ∈ Nat.toDigits 10 count, char.isDigit = true :=
    fun count => ⟨Nat.toDigits_ne_nil, List.all_eq_true.mp (Lines.digits_of_toDigits count)⟩
  unfold spellSize
  split
  next power suffix found =>
    refine ⟨by simp, ?_⟩
    have among := List.mem_of_find?_eq_some found
    intro char inside
    rcases List.mem_append.mp inside with inside | inside
    next => exact .inl ((digits _).2 char inside)
    next =>
      obtain rfl := List.mem_singleton.mp inside
      simp only [sizeUnits, List.mem_cons, Prod.mk.injEq, List.not_mem_nil, or_false] at among
      rcases among with ⟨-, rfl⟩ | ⟨-, rfl⟩ | ⟨-, rfl⟩ <;> exact .inr (by decide)
  next => exact ⟨(digits _).1, fun char inside => .inl ((digits _).2 char inside)⟩

theorem spellDate_plain (date : NaiveDate) : spellDate date ≠ [] ∧
    ∀ char ∈ spellDate date, char.isDigit = true ∨ char = '-' ∨ char = '+' := by
  obtain ⟨sign, year, month, day, parts⟩ := spellDate_parts date
  rw [parts.spelled]
  refine ⟨by simp, ?_⟩
  intro char inside
  simp only [List.mem_append, List.mem_cons] at inside
  rcases inside with (inside | inside) | rfl | inside | rfl | inside
  next =>
    rw [parts.sign] at inside
    split at inside
    next => exact .inr (.inl (List.mem_singleton.mp inside))
    next =>
      split at inside
      next => exact .inr (.inr (List.mem_singleton.mp inside))
      next => cases inside
  next => exact .inl (parts.yearDigits.2 char inside)
  next => exact .inr (.inl rfl)
  next => exact .inl (parts.monthDigits.2 char inside)
  next => exact .inr (.inl rfl)
  next => exact .inl (parts.dayDigits.2 char inside)

def Ordinary : Prop := Lines.isWhitespace char = false ∧ char ≠ '"' ∧ char ≠ '{' ∧ char ≠ '}'

instance (char : Char) : Decidable (Ordinary char) := inferInstanceAs (Decidable (_ ∧ _))

theorem ordinary_of (known : char.isDigit = true ∨ char.isAlpha = true ∨ char = '-' ∨ char = '+') : Ordinary char := by
  rcases known with digit | letter | rfl | rfl
  next =>
    refine ⟨Lines.digit_solid char digit, ?_, ?_, ?_⟩ <;> rintro rfl <;> exact absurd digit (by decide)
  next =>
    refine ⟨?_, ?_, ?_, ?_⟩
    next =>
      have bounds := Lines.letter_bounds char letter
      simp only [Lines.isWhitespace, List.contains_cons, List.contains_nil, Bool.or_eq_false_iff, Bool.and_eq_false_iff,
        decide_eq_false_iff_not, beq_eq_false_iff_ne, Bool.or_false]
      omega
    all_goals
      rintro rfl
      exact absurd letter (by decide)
  next => decide
  next => decide

theorem spellValue_ordinary (field : single.field ≠ .header) (other : single.field.takesSet = false) :
    spellValue single ≠ [] ∧ ∀ char ∈ spellValue single, Ordinary char := by
  cases single with
  | name _ _ => cases other
  | withAddresses _ => cases other
  | header _ _ => exact absurd rfl field
  | hasAttachment => exact ⟨by decide, Lines.forall_of_all _ (by decide)⟩
  | hasAction => exact ⟨by decide, Lines.forall_of_all _ (by decide)⟩
  | is state => cases state <;> exact ⟨by decide, Lines.forall_of_all _ (by decide)⟩
  | after date | before date =>
    obtain ⟨filled, plain⟩ := spellDate_plain date
    refine ⟨filled, fun char inside => ordinary_of char ?_⟩
    rcases plain char inside with digit | sign
    next => exact .inl digit
    next => exact .inr (.inr sign)
  | larger bytes | smaller bytes =>
    obtain ⟨filled, plain⟩ := spellSize_plain bytes
    refine ⟨filled, fun char inside => ordinary_of char ?_⟩
    rcases plain char inside with digit | letter
    next => exact .inl digit
    next => exact .inr (.inl letter)

theorem addressList_join (some_address : addresses ≠ [])
    (usable : ∀ address ∈ addresses, address ≠ [] ∧ Lines.trim address = address ∧ ',' ∉ address) :
    addressList (Separated.join ',' addresses) = addresses := by
  unfold addressList
  rw [Separated.split_join ',' addresses some_address (fun address inside => (usable address inside).2.2)]
  have trimmed : addresses.map Lines.trim = addresses := by
    conv_rhs => rw [← List.map_id addresses]
    exact List.map_congr_left fun address inside => (usable address inside).2.1
  rw [trimmed, List.filter_eq_self]
  exact fun address inside => decide_eq_true (usable address inside).1

theorem join_ne_nil (some_address : addresses ≠ []) (filled : ∀ address ∈ addresses, address ≠ []) :
    Separated.join ',' addresses ≠ [] := by
  obtain ⟨first, rest, rfl⟩ := List.exists_cons_of_ne_nil some_address
  have here := filled first List.mem_cons_self
  cases rest with
  | nil => simpa using here
  | cons other rest =>
    rw [Separated.join_cons _ _ _ (by simp)]
    simp

theorem plain_other (other : single.field.takesSet = false) : single.plain = spellValue single := by
  cases single with
  | name _ _ => cases other
  | withAddresses _ => cases other
  | _ => rfl

theorem readValue_day (lawful : env.unicode.Lawful) (today date : NaiveDate) (make : NaiveDate -> Single)
    (injective : ∀ first second, make first = make second → first = second) :
    (parseDate env.unicode (spellDate date) today).map make = some (make date) <->
      1000 ≤ date.date.year ∧ date.date.year ≤ 9999 := by
  rw [← parseDate_spellDate env.unicode lawful today date, Option.map_eq_some_iff]
  constructor
  next =>
    rintro ⟨other, read, same⟩
    rw [read, injective other date same]
  next => exact fun read => ⟨date, read, rfl⟩

theorem has_words : hasSpellings.lookup (asciiLower "attachment".toList) = some .hasAttachment ∧
    hasSpellings.lookup (asciiLower "action".toList) = some .hasAction := by
  decide

theorem is_word (state : State) : isSpellings.lookup (asciiLower state.word) = some state := by
  cases state <;> decide

theorem other_read (lawful : env.unicode.Lawful) (today : NaiveDate) (single : Single) (usable : single.Usable)
    (field : single.field ≠ .header) (other : single.field.takesSet = false) :
    readValue env today (spellValue single) single.field = some single <-> single.DayHolds := by
  cases single with
  | name _ _ => cases other
  | withAddresses _ => cases other
  | header _ _ => exact absurd rfl field
  | hasAttachment => exact iff_of_true has_words.1 trivial
  | hasAction => exact iff_of_true has_words.2 trivial
  | is state =>
    change (isSpellings.lookup (asciiLower state.word)).map Single.is = some (.is state) <-> True
    rw [is_word]
    exact iff_of_true rfl trivial
  | after date =>
    change (parseDate env.unicode (spellDate date) today).map Single.after = some (.after date) <->
      1000 ≤ date.date.year ∧ date.date.year ≤ 9999
    exact readValue_day env lawful today date .after (fun _ _ => Single.after.inj)
  | before date =>
    change (parseDate env.unicode (spellDate date) today).map Single.before = some (.before date) <->
      1000 ≤ date.date.year ∧ date.date.year ≤ 9999
    exact readValue_day env lawful today date .before (fun _ _ => Single.before.inj)
  | larger bytes =>
    obtain ⟨text, size⟩ := usable
    change (parseSize (spellSize bytes)).map Single.larger = some (.larger bytes) <-> True
    rw [parseSize_spellSize text bytes size]
    exact iff_of_true rfl trivial
  | smaller bytes =>
    obtain ⟨text, size⟩ := usable
    change (parseSize (spellSize bytes)).map Single.smaller = some (.smaller bytes) <-> True
    rw [parseSize_spellSize text bytes size]
    exact iff_of_true rfl trivial

theorem spellValue_read (lawful : env.unicode.Lawful) (today : NaiveDate) (single : Single) (usable : single.Usable)
    (no_quote : single.QuoteFree) (field : single.field ≠ .header) :
    (spellValue single).head? ≠ some '{' ∧ unquote (spellValue single) = single.plain ∧ single.plain ≠ [] ∧
      (readValue env today single.plain single.field = some single <-> single.DayHolds) := by
  have ordinary : single.field.takesSet = false → (spellValue single).head? ≠ some '{' ∧
      unquote (spellValue single) = single.plain ∧ single.plain ≠ [] := by
    intro other
    obtain ⟨filled, plain⟩ := spellValue_ordinary single field other
    rw [plain_other single other]
    refine ⟨fun head => (plain '{' (List.mem_of_head? head)).2.2.1 rfl, unquote_plain _ ?_, filled⟩
    exact fun inside => (plain '"' inside).2.1 rfl
  by_cases sets : single.field.takesSet = true
  case pos =>
    cases single with
    | name field value => exact ⟨quoted_head value, unquote_quoted value no_quote, usable, iff_of_true rfl trivial⟩
    | withAddresses addresses =>
      refine ⟨quoted_head _, unquote_quoted _ (join_no_quote addresses no_quote),
        join_ne_nil addresses usable.1 (fun address inside => (usable.2 address inside).1), iff_of_true ?_ trivial⟩
      simp only [Single.plain, Single.field, readValue, addressList_join addresses usable.1 usable.2]
      rw [if_neg (by simpa using usable.1)]
    | _ => cases sets
  case neg =>
    obtain ⟨first, second, third⟩ := ordinary (Bool.eq_false_iff.mpr sets)
    refine ⟨first, second, third, ?_⟩
    rw [plain_other single (Bool.eq_false_iff.mpr sets)]
    exact other_read env lawful today single usable field (Bool.eq_false_iff.mpr sets)

/-! ### A set read again -/

theorem closesEarly_inside (rest : Text) (no_quote : '"' ∉ value) :
    closesEarly true (value ++ '"' :: rest) = closesEarly false rest := by
  induction value with
  | nil => simp [closesEarly]
  | cons char value ih =>
    rw [List.mem_cons, not_or] at no_quote
    rw [List.cons_append, closesEarly]
    simp [Ne.symm no_quote.1, ih no_quote.2]

theorem closesEarly_quoted (rest : Text) (no_quote : '"' ∉ value) :
    closesEarly false (quoted value ++ rest) = closesEarly false rest := by
  rcases quoted_cases value with wrapped | ⟨bare, -, solid⟩
  next =>
    rw [wrapped, List.cons_append, List.cons_append, List.append_assoc, List.singleton_append, closesEarly]
    simp [closesEarly_inside value rest no_quote]
  next =>
    rw [bare]
    clear bare
    induction value with
    | nil => rfl
    | cons char value ih =>
      rw [List.mem_cons, not_or] at no_quote
      have here := solid char List.mem_cons_self
      rw [List.cons_append, closesEarly]
      simp [Ne.symm no_quote.1, here.2.2, ih no_quote.2 (fun other inside => solid other (List.mem_cons_of_mem _ inside))]

theorem closesEarly_join (values : List Text) (no_quote : ∀ value ∈ values, '"' ∉ value) :
    closesEarly false (Separated.join ' ' (values.map quoted)) = false := by
  induction values with
  | nil => rfl
  | cons value values ih =>
    obtain ⟨here, rest⟩ := List.forall_mem_cons.mp no_quote
    cases values with
    | nil =>
      have alone := closesEarly_quoted value [] here
      rw [List.append_nil] at alone
      simpa [closesEarly] using alone
    | cons other values =>
      rw [List.map_cons, Separated.join_cons _ _ _ (by simp), closesEarly_quoted value _ here, closesEarly]
      simpa using ih rest

theorem inner_inside (no_quote : '"' ∉ value) :
    value.foldl inner.next true = true ∧ inner.Unbroken true value := by
  induction value with
  | nil => exact ⟨rfl, trivial⟩
  | cons char value ih =>
    rw [List.mem_cons, not_or] at no_quote
    have step : inner.next true char = true := by simp [inner, Ne.symm no_quote.1]
    obtain ⟨kept, unbroken⟩ := ih no_quote.2
    refine ⟨by rw [List.foldl_cons, step, kept], by simp [inner], ?_⟩
    rwa [step]

theorem inner_quoted (no_quote : '"' ∉ value) :
    inner.state (quoted value) = false ∧ inner.IsWord (quoted value) := by
  have quote : inner.blank '"' = false := by decide
  rcases quoted_cases value with wrapped | ⟨bare, filled, solid⟩
  next =>
    obtain ⟨kept, unbroken⟩ := inner_inside value no_quote
    have opens : inner.next inner.start '"' = true := by decide
    rw [wrapped]
    constructor
    next =>
      rw [Scanner.state, List.cons_append, List.foldl_cons, opens, List.foldl_append, kept]
      rfl
    next =>
      refine ⟨quote, ?_⟩
      rw [opens]
      exact Scanner.Unbroken.append inner true value ['"'] unbroken ⟨by rw [quote]; rfl, trivial⟩
  next =>
    rw [bare]
    have plain : ∀ text : Text, '"' ∉ text → text.foldl inner.next false = false := by
      intro text
      induction text with
      | nil => exact fun _ => rfl
      | cons char text ih =>
        intro apart
        rw [List.mem_cons, not_or] at apart
        have step : inner.next false char = false := by simp [inner, Ne.symm apart.1]
        rw [List.foldl_cons, step]
        exact ih apart.2
    refine ⟨plain value no_quote, ?_⟩
    obtain ⟨char, rest, rfl⟩ := List.exists_cons_of_ne_nil filled
    exact ⟨(solid char List.mem_cons_self).1,
      inner.unbroken_solid _ rest fun other inside => (solid other (List.mem_cons_of_mem _ inside)).1⟩

theorem inner_raws (values : List Text) (no_quote : ∀ value ∈ values, '"' ∉ value) :
    inner.raws (Separated.join ' ' (values.map quoted)) = values.map quoted := by
  induction values with
  | nil => rfl
  | cons value values ih =>
    obtain ⟨here, rest⟩ := List.forall_mem_cons.mp no_quote
    obtain ⟨closed, isWord⟩ := inner_quoted value here
    cases values with
    | nil => simpa using inner.raws_single (quoted value) isWord
    | cons other values =>
      have space : inner.blank ' ' = true := by decide
      rw [List.map_cons, Separated.join_cons _ _ _ (by simp), inner.raws_word (quoted value) _ isWord
        (.inr ⟨' ', _, rfl, space, by rw [closed]; rfl⟩), inner.raws_blank ' ' _ space, ih rest]

theorem mapM_of (read : A -> Option B) (spelled : B -> A) (values : List B)
    (each : ∀ value ∈ values, read (spelled value) = some value) : (values.map spelled).mapM read = some values := by
  induction values with
  | nil => rfl
  | cons value values ih =>
    obtain ⟨here, rest⟩ := List.forall_mem_cons.mp each
    rw [List.map_cons, List.mapM_cons, here, ih rest]
    rfl

theorem spellValue_quoted (sets : single.field.takesSet = true) : spellValue single = quoted single.plain := by
  cases single with
  | name _ _ => rfl
  | withAddresses _ => rfl
  | _ => cases sets

theorem plain_no_quote (sets : single.field.takesSet = true) (no_quote : single.QuoteFree) :
    '"' ∉ single.plain := by
  cases single with
  | name _ _ => exact no_quote
  | withAddresses addresses => exact join_no_quote addresses no_quote
  | _ => cases sets

theorem dayHolds_set (sets : single.field.takesSet = true) : single.DayHolds := by
  cases single with
  | name _ _ => trivial
  | withAddresses _ => trivial
  | _ => cases sets

theorem stripSuffix_append (front back : Text) : stripSuffix back (front ++ back) = some front := by
  rw [stripSuffix, List.reverse_append, Lines.stripFront_append, Option.map_some, List.reverse_reverse]

theorem stripSuffix_some (back text front : Text) (stripped : stripSuffix back text = some front) : text = front ++ back := by
  obtain ⟨rest, found, rfl⟩ := Option.map_eq_some_iff.mp stripped
  have turned := congrArg List.reverse (Lines.stripFront_some _ _ _ found)
  simpa using turned

theorem operator_set (lawful : env.unicode.Lawful) (today : NaiveDate) (negated : Bool) (found : AnyOf)
    (usable : ∀ single ∈ found.members, single.Usable) (no_quote : ∀ single ∈ found.members, single.QuoteFree) :
    operator env today negated found.field (Filter.anyOf found).operand = .filter { negated, filter := .anyOf found } := by
  have sets : ∀ single ∈ found.members, single.field.takesSet = true :=
    fun single inside => (found.uniform single inside).symm ▸ found.takesSet
  have apart : found.field ≠ .header := fun same => absurd found.takesSet (by rw [same]; decide)
  have spelled : found.members.map spellValue = (found.members.map Single.plain).map quoted := by
    rw [List.map_map]
    exact List.map_congr_left fun single inside => spellValue_quoted single (sets single inside)
  have quotes : ∀ value ∈ found.members.map Single.plain, '"' ∉ value := by
    intro value inside
    obtain ⟨single, among, rfl⟩ := List.mem_map.mp inside
    exact plain_no_quote single (sets single among) (no_quote single among)
  have each : ∀ single ∈ found.members, member env today found.field (spellValue single) = some single := by
    intro single inside
    have field : single.field ≠ .header := by
      rw [found.uniform single inside]
      exact apart
    obtain ⟨first, second, third, fourth⟩ :=
      spellValue_read env lawful today single (usable single inside) (no_quote single inside) field
    unfold member
    rw [if_neg first, second, if_neg (by simpa using third), ← found.uniform single inside]
    exact fourth.mpr (dayHolds_set single (sets single inside))
  have read : set env today found.field (Filter.anyOf found).operand = some (.anyOf found) := by
    have opens : Lines.stripFront ['{'] (Filter.anyOf found).operand =
        some (Separated.join ' ' (found.members.map spellValue) ++ ['}']) :=
      Lines.stripFront_append ['{'] (Separated.join ' ' (found.members.map spellValue) ++ ['}'])
    unfold set
    rw [if_pos found.takesSet, opens, Option.bind_some, stripSuffix_append, Option.bind_some, spelled,
      closesEarly_join _ quotes, inner_raws _ quotes, ← spelled, mapM_of _ spellValue found.members each]
    exact alternatives_ofMembers (.anyOf found)
  have head : (Filter.anyOf found).operand.head? = some '{' := rfl
  unfold operator
  rw [if_neg apart, if_pos head, read]

theorem operator_single (lawful : env.unicode.Lawful) (today : NaiveDate) (negated : Bool) (single : Single)
    (usable : single.Usable) (no_quote : single.QuoteFree) (field : single.field ≠ .header) :
    operator env today negated single.field (spellValue single) = .filter { negated, filter := .single single } <->
      single.DayHolds := by
  obtain ⟨first, second, third, fourth⟩ := spellValue_read env lawful today single usable no_quote field
  rw [← fourth]
  unfold operator
  rw [if_neg field, if_neg first, second]
  simp only
  rw [if_neg (by simpa using third)]
  cases read : readValue env today single.plain single.field with
  | none => simp
  | some other => simp

theorem operator_header (negated : Bool) (name : Text) (value : Option Text)
    (usable : (Single.header name value).Usable) (no_quote : (Single.header name value).QuoteFree) :
    operator env today negated .header (spellValue (.header name value)) =
        .filter { negated, filter := .single (.header name value) } <-> ∀ text ∈ value, normalizeValue env text = text := by
  obtain ⟨filled, normal, no_equals, some_value⟩ := usable
  obtain ⟨name_quote, value_quote⟩ := no_quote
  have kept : normalizeName (unquote name) = name := by rw [unquote_plain name name_quote, normal]
  unfold operator
  rw [if_pos rfl, header]
  cases value with
  | none =>
    have parts : headerParts (spellValue (.header name none)) = (name, none) := by
      change headerParts name = (name, none)
      rw [headerParts, Lines.splitOnce_none '=' name no_equals]
    simp only [parts, kept]
    rw [if_neg (by simpa using filled)]
    simp
  | some text =>
    have parts : headerParts (spellValue (.header name (some text))) = (name, some (quoted text)) := by
      change headerParts (name ++ '=' :: quoted text) = (name, some (quoted text))
      rw [headerParts, Lines.splitOnce_append '=' name (quoted text) no_equals]
    have text_filled := some_value text rfl
    simp only [parts, kept, Option.map_some, unquote_quoted text (value_quote text rfl)]
    rw [if_neg (by simpa using filled)]
    simp only [TokenKind.filter.injEq, Clause.mk.injEq, Filter.single.injEq, Single.header.injEq, true_and, Option.mem_def,
      Option.some.injEq, forall_eq']
    constructor
    next =>
      intro same
      have held := Option.filter_eq_some_iff.mp same
      simpa using held.1
    next =>
      intro same
      rw [same, Option.filter_eq_some_iff]
      exact ⟨rfl, by simpa using text_filled⟩

end Postio.Search
