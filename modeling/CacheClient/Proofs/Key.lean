import CacheClient.Key
import CacheClient.Proofs.Utf8

/-!
# Which keys are accepted

Validation looks at the bytes of a source in three ways, one after the other: are there any, are
there too many, and which is the first that no key may hold. `Key.Verdict` says for each answer
when it is given. Bytes fall into four classes, one equation for each tells what becomes of them,
and so the answer is the one that the verdict allows (`ofBytes_eq_iff`). In particular, a key is
accepted again under any limit that it does not exceed (`validate_eq_ok_iff`).

In a text, the bytes that no key may hold are those of the characters that no key may hold. These
are ASCII, and a byte of ASCII is written for one character only (`exists_forbidden_iff`). So the
first such byte is the first such character, and before it stand the bytes of the text before it
(`firstForbidden_encode_iff`).

Main result: `refused_exactly_when_faulty`.
-/

namespace CacheClient.Key

/-- A code below 33, or 127: a control character, the space or the delete. -/
def Forbidden (code : Nat) : Prop := code < 33 ∨ code = 127

instance : DecidablePred Forbidden := fun _ => inferInstanceAs (Decidable (_ ∨ _))

/-- The limit lets this number of bytes pass. A limit of 0 is none. -/
def Admits (limit length : Nat) : Prop := limit = 0 ∨ length ≤ limit

/-- The first byte that no key may hold, and its place. -/
structure FirstForbidden (bytes : Bytes) (b : UInt8) (position : Nat) : Prop where
  here : bytes[position]? = some b
  forbidden : Forbidden b.toNat
  first : ∀ {i x}, i < position → bytes[i]? = some x → ¬Forbidden x.toNat

/-- When the validation of bytes gives an answer. -/
def Verdict (limit : Nat) (bytes : Bytes) : Except KeyError Key → Prop
  | .error .empty => bytes = []
  | .error .encoding => False
  | .error (.tooLong length bound) =>
    bytes ≠ [] ∧ ¬Admits limit bytes.length ∧ length = bytes.length ∧ bound = limit
  | .error (.controlCharacter b position) =>
    bytes ≠ [] ∧ Admits limit bytes.length ∧ FirstForbidden bytes b position
  | .ok k => Admits limit bytes.length ∧ k.bytes = bytes

/-- The bytes of a source. A name in the encoding of the operating system has some if it is text. -/
inductive Source.Holds : Key.Source → Bytes → Prop
  | text (s : String) : Holds (.ofText s) (Utf8.ofString s)
  | bytes (bytes : Bytes) : Holds (.ofBytes bytes) bytes
  | systemName (text : List Char) : Holds (.ofSystemName (Utf8.encode text)) (Utf8.encode text)
  | key (k : Key) : Holds (.ofKey k) k.bytes

/-! ## The first byte that no key may hold -/

section

variable {bytes : Bytes} {b b' : UInt8} {position position' : Nat}

theorem isForbidden_iff : isForbidden b = true ↔ Forbidden b.toNat := by
  rw [isForbidden, Bool.or_eq_true, decide_eq_true_iff, beq_iff_eq, UInt8.lt_iff_toNat_lt,
    ← UInt8.toNat_inj]
  rfl

theorem isForbidden_eq_false_iff : isForbidden b = false ↔ ¬Forbidden b.toNat := by
  rw [← isForbidden_iff, Bool.not_eq_true]

/-- The place of the first byte that no key may hold is the number of those before it. -/
theorem firstForbidden_iff :
    FirstForbidden bytes b position ↔
      ∃ front back, bytes = front ++ b :: back ∧ position = front.length ∧ Forbidden b.toNat ∧
        ∀ x ∈ front, ¬Forbidden x.toNat := by
  constructor
  · rintro ⟨hhere, hforbidden, hfirst⟩
    obtain ⟨hlt, rfl⟩ := List.getElem?_eq_some_iff.1 hhere
    refine ⟨bytes.take position, bytes.drop (position + 1), ?_, ?_, hforbidden, ?_⟩
    · rw [← List.drop_eq_getElem_cons hlt, List.take_append_drop]
    · rw [List.length_take_of_le (Nat.le_of_lt hlt)]
    · intro x hx
      obtain ⟨i, hi⟩ := List.mem_iff_getElem?.1 hx
      rw [List.getElem?_take] at hi
      split at hi
      · next hbefore => exact hfirst hbefore hi
      · cases hi
  · rintro ⟨front, back, rfl, rfl, hforbidden, hfront⟩
    refine ⟨by simp, hforbidden, ?_⟩
    intro i x hi hx
    rw [List.getElem?_append_left hi] at hx
    exact hfront x (List.mem_of_getElem? hx)

theorem FirstForbidden.unique (h : FirstForbidden bytes b position)
    (h' : FirstForbidden bytes b' position') : b = b' ∧ position = position' := by
  obtain hlt | rfl | hlt := Nat.lt_trichotomy position position'
  · exact absurd h.forbidden (h'.first hlt h.here)
  · exact ⟨Option.some.inj (h.here.symm.trans h'.here), rfl⟩
  · exact absurd h'.forbidden (h.first hlt h'.here)

theorem firstForbidden_of_find? (h : bytes.find? isForbidden = some b) :
    FirstForbidden bytes b (bytes.findIdx isForbidden) := by
  obtain ⟨hb, i, hi, rfl, hbefore⟩ := List.find?_eq_some_iff_getElem.1 h
  have hallowed : ∀ j, (hj : j < i) → isForbidden bytes[j] = false := fun j hj => by
    simpa using hbefore j hj
  rw [(List.findIdx_eq hi).2 ⟨hb, hallowed⟩]
  refine ⟨List.getElem?_eq_getElem hi, isForbidden_iff.1 hb, ?_⟩
  intro j x hj hx
  obtain ⟨-, rfl⟩ := List.getElem?_eq_some_iff.1 hx
  exact isForbidden_eq_false_iff.1 (hallowed j hj)

end

/-! ## Bytes -/

section

variable {limit position : Nat} {bytes : Bytes} {b : UInt8} {k : Key}
  {verdict : Except KeyError Key}

theorem not_admits_iff {length : Nat} : ¬Admits limit length ↔ limit ≠ 0 ∧ limit < length := by
  rw [Admits, not_or, Nat.not_le]

theorem ofBytes_nil : ofBytes limit [] = .error .empty := dif_pos rfl

theorem ofBytes_of_not_admits (hne : bytes ≠ []) (h : ¬Admits limit bytes.length) :
    ofBytes limit bytes = .error (.tooLong bytes.length limit) := by
  rw [ofBytes, dif_neg hne, if_pos (not_admits_iff.1 h)]

theorem ofBytes_of_firstForbidden (hadmits : Admits limit bytes.length)
    (h : FirstForbidden bytes b position) :
    ofBytes limit bytes = .error (.controlCharacter b position) := by
  have hmem : b ∈ bytes := List.mem_of_getElem? h.here
  rw [ofBytes, dif_neg (List.ne_nil_of_mem hmem), if_neg fun hlong => not_admits_iff.2 hlong hadmits]
  split
  · next x hx =>
    obtain ⟨rfl, rfl⟩ := h.unique (firstForbidden_of_find? hx)
    rfl
  · next hnone => exact absurd (isForbidden_iff.2 h.forbidden) (List.find?_eq_none.1 hnone b hmem)

theorem ofBytes_bytes (hadmits : Admits limit k.length) : ofBytes limit k.bytes = .ok k := by
  have hshort : ¬(limit ≠ 0 ∧ limit < k.bytes.length) := fun hlong =>
    not_admits_iff.2 hlong hadmits
  rw [ofBytes, dif_neg k.nonempty, if_neg hshort]
  split
  · next b hb =>
    have hallowed := k.allowed b (List.mem_of_find?_eq_some hb)
    rw [List.find?_some hb] at hallowed
    cases hallowed
  · rfl

/-- Bytes make a key, or one of them may not be in it, if there are any. -/
theorem exists_key_or_firstForbidden (hne : bytes ≠ []) :
    (∃ k : Key, k.bytes = bytes) ∨ ∃ b position, FirstForbidden bytes b position := by
  cases hfind : bytes.find? isForbidden with
  | none =>
    have hallowed : ∀ b ∈ bytes, isForbidden b = false := by
      simpa using List.find?_eq_none.1 hfind
    exact .inl ⟨⟨bytes, hne, hallowed⟩, rfl⟩
  | some b => exact .inr ⟨b, _, firstForbidden_of_find? hfind⟩

/-- **The answer is the one that the verdict allows.** -/
theorem ofBytes_eq_iff : ofBytes limit bytes = verdict ↔ Verdict limit bytes verdict := by
  constructor
  · rintro rfl
    by_cases hne : bytes = []
    · rw [hne, ofBytes_nil]
      exact rfl
    by_cases hadmits : Admits limit bytes.length
    · obtain ⟨k, rfl⟩ | ⟨b, position, hfirst⟩ := exists_key_or_firstForbidden hne
      · rw [ofBytes_bytes hadmits]
        exact ⟨hadmits, rfl⟩
      · rw [ofBytes_of_firstForbidden hadmits hfirst]
        exact ⟨hne, hadmits, hfirst⟩
    · rw [ofBytes_of_not_admits hne hadmits]
      exact ⟨hne, hadmits, rfl, rfl⟩
  · intro h
    cases verdict with
    | error e =>
      cases e with
      | empty =>
        obtain rfl : bytes = [] := h
        exact ofBytes_nil
      | encoding => exact absurd h id
      | tooLong length bound =>
        obtain ⟨hne, hadmits, rfl, rfl⟩ := h
        exact ofBytes_of_not_admits hne hadmits
      | controlCharacter b position =>
        obtain ⟨-, hadmits, hfirst⟩ := h
        exact ofBytes_of_firstForbidden hadmits hfirst
    | ok k =>
      obtain ⟨hadmits, rfl⟩ := h
      exact ofBytes_bytes hadmits

theorem validate_eq_iff {source : Key.Source} (h : source.bytes? = .ok bytes) :
    validate limit source = verdict ↔ Verdict limit bytes verdict := by
  rw [validate, h]
  exact ofBytes_eq_iff

theorem Source.Holds.bytes?_eq {source : Key.Source} (h : source.Holds bytes) :
    source.bytes? = .ok bytes := by
  cases h with
  | systemName text => simp [ofSystemName, Utf8.decode?_encode]
  | text | bytes | key => rfl

end

/-! ## Texts -/

section

variable {c : Char} {text : List Char} {b : UInt8} {position : Nat}

theorem utf8EncodeChar_of_forbidden (h : Forbidden c.toNat) :
    String.utf8EncodeChar c = [UInt8.ofNat c.toNat] := by
  have hascii : c.val.toNat ≤ 127 := by
    rcases h with h | h
    · exact Nat.le_of_lt (Nat.lt_of_lt_of_le h (by decide))
    · exact Nat.le_of_eq h
  rw [String.utf8EncodeChar, if_pos hascii]
  rfl

theorem toNat_ofNat_of_forbidden {code : Nat} (h : Forbidden code) :
    (UInt8.ofNat code).toNat = code := by
  rw [UInt8.toNat_ofNat']
  rcases h with h | rfl <;> omega

/-- **No byte that no key may hold is written for another character.** -/
theorem exists_forbidden_iff :
    (∃ b ∈ String.utf8EncodeChar c, Forbidden b.toNat) ↔ Forbidden c.toNat := by
  constructor
  · rintro ⟨b, hmem, hb⟩
    have hascii : b < 0x80 := by
      rw [UInt8.lt_iff_toNat_lt]
      rcases hb with hb | hb
      · exact Nat.lt_trans hb (by decide)
      · rw [hb]
        decide
    have hvalid : b.toNat.isValidChar := .inl (Nat.lt_trans b.toNat_lt (by decide))
    have hc : c.val.toNat = b.toNat := by
      rw [Utf8.eq_of_mem_utf8EncodeChar hascii hmem, Utf8.toNat_val_ofNat hvalid]
    rwa [Char.toNat, hc]
  · intro h
    rw [utf8EncodeChar_of_forbidden h]
    exact ⟨_, List.mem_singleton_self _, by rwa [toNat_ofNat_of_forbidden h]⟩

theorem exists_forbidden_encode_iff :
    (∃ b ∈ Utf8.encode text, Forbidden b.toNat) ↔ ∃ c ∈ text, Forbidden c.toNat := by
  simp only [Utf8.encode, List.mem_flatMap, ← exists_forbidden_iff]
  constructor
  · rintro ⟨b, ⟨c, hc, hb⟩, hforbidden⟩
    exact ⟨c, hc, b, hb, hforbidden⟩
  · rintro ⟨c, hc, b, hb, hforbidden⟩
    exact ⟨b, ⟨c, hc, hb⟩, hforbidden⟩

/-- Before the first character that no key may hold stand only bytes that a key may hold. -/
theorem firstForbidden_encode_append {front back : List Char}
    (hfront : ∀ x ∈ front, ¬Forbidden x.toNat) (hc : Forbidden c.toNat) :
    FirstForbidden (Utf8.encode (front ++ c :: back)) (UInt8.ofNat c.toNat)
      (Utf8.encode front).length := by
  refine firstForbidden_iff.2 ⟨Utf8.encode front, Utf8.encode back, ?_, rfl, ?_, ?_⟩
  · rw [Utf8.encode_append, Utf8.encode_cons, utf8EncodeChar_of_forbidden hc]
    rfl
  · rwa [toNat_ofNat_of_forbidden hc]
  · intro x hx hforbidden
    obtain ⟨d, hd, hforbidden⟩ := exists_forbidden_encode_iff.1 ⟨x, hx, hforbidden⟩
    exact hfront d hd hforbidden

/-- **The first byte that no key may hold is the first such character of the text.** -/
theorem firstForbidden_encode_iff :
    FirstForbidden (Utf8.encode text) b position ↔
      ∃ front c back, text = front ++ c :: back ∧ (∀ x ∈ front, ¬Forbidden x.toNat) ∧
        Forbidden c.toNat ∧ b = UInt8.ofNat c.toNat ∧ position = (Utf8.encode front).length := by
  constructor
  · intro h
    have hexists := exists_forbidden_encode_iff.1 ⟨b, List.mem_of_getElem? h.here, h.forbidden⟩
    obtain ⟨c, hfind⟩ : ∃ c, text.find? (fun c => Forbidden c.toNat) = some c := by
      rw [← Option.isSome_iff_exists, List.find?_isSome]
      simpa using hexists
    obtain ⟨hc, front, back, rfl, hfront⟩ := List.find?_eq_some_iff_append.1 hfind
    have hfront : ∀ x ∈ front, ¬Forbidden x.toNat := by simpa using hfront
    have hc : Forbidden c.toNat := by simpa using hc
    obtain ⟨rfl, rfl⟩ := h.unique (firstForbidden_encode_append hfront hc)
    exact ⟨front, c, back, rfl, hfront, hc, rfl, rfl⟩
  · rintro ⟨front, c, back, rfl, hfront, hc, rfl, rfl⟩
    exact firstForbidden_encode_append hfront hc

end

/-! ## Sources -/

section

variable {limit : Nat} {source : Key.Source}

/-- A source gives a key if it holds its bytes and the limit lets them pass. -/
theorem validate_eq_ok_iff {k : Key} :
    validate limit source = .ok k ↔ source = .ofKey k ∧ Admits limit k.length := by
  obtain ⟨e | bytes⟩ := source
  · constructor
    · intro h
      cases h
    · rintro ⟨h, -⟩
      cases h
  · rw [validate_eq_iff rfl]
    constructor
    · rintro ⟨hadmits, rfl⟩
      exact ⟨rfl, hadmits⟩
    · rintro ⟨h, hadmits⟩
      cases h
      exact ⟨hadmits, rfl⟩

theorem validate_ofSystemName_iff {name : Bytes} :
    validate limit (.ofSystemName name) = .error .encoding ↔ ¬∃ text, name = Utf8.encode text := by
  simp only [← Utf8.decode?_eq_some_iff, ← Option.isSome_iff_exists]
  by_cases htext : (Utf8.decode? name).isSome = true
  · have hbytes : (Source.ofSystemName name).bytes? = .ok name := by
      rw [Source.ofSystemName, if_pos htext]
    rw [validate_eq_iff hbytes]
    exact ⟨False.elim, fun h => h htext⟩
  · have hbytes : (Source.ofSystemName name).bytes? = .error .encoding := by
      rw [Source.ofSystemName, if_neg htext]
    rw [validate, hbytes]
    exact ⟨fun _ => htext, fun _ => rfl⟩

theorem exists_validate_eq_error_iff {text : List Char}
    (h : source.bytes? = .ok (Utf8.encode text)) (hadmits : Admits limit (Utf8.encode text).length) :
    (∃ e, validate limit source = .error e) ↔ text = [] ∨ ∃ c ∈ text, Forbidden c.toNat := by
  constructor
  · rintro ⟨e, he⟩
    have hverdict := (validate_eq_iff h).1 he
    cases e with
    | empty => exact .inl (Utf8.encode_inj hverdict)
    | encoding => exact absurd hverdict id
    | tooLong length bound => exact absurd hadmits hverdict.2.1
    | controlCharacter b position =>
      obtain ⟨-, -, hfirst⟩ := hverdict
      exact .inr (exists_forbidden_encode_iff.1
        ⟨b, List.mem_of_getElem? hfirst.here, hfirst.forbidden⟩)
  · intro hfaulty
    cases hresult : validate limit source with
    | error e => exact ⟨e, rfl⟩
    | ok k =>
      obtain ⟨-, hbytes⟩ := (validate_eq_iff h).1 hresult
      rcases hfaulty with rfl | hforbidden
      · exact absurd hbytes k.nonempty
      · obtain ⟨b, hb, hforbidden⟩ := exists_forbidden_encode_iff.2 hforbidden
        rw [← hbytes] at hb
        exact absurd hforbidden (isForbidden_eq_false_iff.1 (k.allowed b hb))

theorem validate_eq_controlCharacter_iff {text : List Char} {b : UInt8} {position : Nat}
    (h : source.bytes? = .ok (Utf8.encode text)) (hadmits : Admits limit (Utf8.encode text).length) :
    validate limit source = .error (.controlCharacter b position) ↔
      ∃ front c back, text = front ++ c :: back ∧ (∀ x ∈ front, ¬Forbidden x.toNat) ∧
        Forbidden c.toNat ∧ b = UInt8.ofNat c.toNat ∧ position = (Utf8.encode front).length := by
  rw [validate_eq_iff h, ← firstForbidden_encode_iff]
  constructor
  · rintro ⟨-, -, hfirst⟩
    exact hfirst
  · intro hfirst
    exact ⟨List.ne_nil_of_mem (List.mem_of_getElem? hfirst.here), hadmits, hfirst⟩

end

/-- **A source is refused exactly when it is faulty.** Under any limit,

* a name of the operating system that is no text is refused for its encoding, and nothing else is;
* text has its UTF-8 form for its bytes, and bytes and keys have themselves;
* bytes are refused if there are none, else if there are more than the limit lets pass, and else at
  the first that is below 33 or equal to 127, with that byte and its place. Otherwise they are those
  of the key;
* within the limit, a text is refused only if it is empty or one of its characters is below 33 or
  equal to 127, and the place is the number of bytes of the text before the first of them;
* a key is accepted again, as a key or as bytes, under any limit that is none or not exceeded. -/
theorem refused_exactly_when_faulty (limit : Nat) :
    (∀ name, validate limit (.ofSystemName name) = .error .encoding ↔
      ¬∃ text, name = Utf8.encode text) ∧
    (∀ (source : Key.Source) (bytes : Bytes), source.Holds bytes → source.bytes? = .ok bytes) ∧
    (∀ (source : Key.Source) (bytes : Bytes), source.bytes? = .ok bytes →
      ∀ verdict, validate limit source = verdict ↔ Verdict limit bytes verdict) ∧
    (∀ (source : Key.Source) (text : List Char), source.bytes? = .ok (Utf8.encode text) →
      Admits limit (Utf8.encode text).length →
      ((∃ e, validate limit source = .error e) ↔ text = [] ∨ ∃ c ∈ text, Forbidden c.toNat) ∧
      ∀ b position, validate limit source = .error (.controlCharacter b position) ↔
        ∃ front c back, text = front ++ c :: back ∧ (∀ x ∈ front, ¬Forbidden x.toNat) ∧
          Forbidden c.toNat ∧ b = UInt8.ofNat c.toNat ∧ position = (Utf8.encode front).length) ∧
    ∀ k : Key, Admits limit k.length →
      validate limit (.ofKey k) = .ok k ∧ validate limit (.ofBytes k.bytes) = .ok k := by
  refine ⟨fun name => validate_ofSystemName_iff, fun _ _ hholds => hholds.bytes?_eq,
    fun _ _ hbytes _ => validate_eq_iff hbytes, ?_, ?_⟩
  · intro source text hbytes hadmits
    exact ⟨exists_validate_eq_error_iff hbytes hadmits,
      fun _ _ => validate_eq_controlCharacter_iff hbytes hadmits⟩
  · intro k hadmits
    exact ⟨ofBytes_bytes hadmits, ofBytes_bytes hadmits⟩

/-- A space behind a letter of two bytes is at the third byte. The letter passes, although its
second byte alone would be a blank in other encodings, and with a limit of its own length. -/
theorem refused_exactly_when_faulty_space :
    let text : List Char := ['à', ' ', 'x']
    let k : Key := ⟨Utf8.encode ['à'], by decide, by decide +kernel⟩
    (Source.ofText "à x").Holds (Utf8.encode text) ∧ Admits 4 (Utf8.encode text).length ∧
      validate 4 (.ofText "à x") = .error (.controlCharacter 32 2) ∧
      ¬Admits 3 (Utf8.encode text).length ∧
      validate 3 (.ofText "à x") = .error (.tooLong 4 3) ∧
      validate 3 (.ofSystemName [0xC3]) = .error .encoding ∧
      Admits 2 k.length ∧ validate 2 (.ofKey k) = .ok k := by
  intro text k
  have hholds : (Source.ofText "à x").Holds (Utf8.encode text) := .text "à x"
  have hadmits : Admits 4 (Utf8.encode text).length := .inr (by decide)
  have hlong : ¬Admits 3 (Utf8.encode text).length := by
    rw [not_admits_iff]
    decide
  have hshort : Admits 2 k.length := .inr (by decide)
  obtain ⟨-, hbytes, -, htext, -⟩ := refused_exactly_when_faulty 4
  obtain ⟨hnames, -, hverdict, -, -⟩ := refused_exactly_when_faulty 3
  obtain ⟨-, -, -, -, hkeys⟩ := refused_exactly_when_faulty 2
  refine ⟨hholds, hadmits, ?_, hlong, ?_, ?_, hshort, (hkeys k hshort).1⟩
  · have hfront : ∀ x ∈ ['à'], ¬Forbidden x.toNat := List.forall_mem_singleton.2 (by decide)
    exact ((htext _ text (hbytes _ _ hholds) hadmits).2 32 2).2
      ⟨['à'], ' ', ['x'], rfl, hfront, by decide, rfl, rfl⟩
  · refine (hverdict _ _ (hbytes _ _ hholds) _).2 ⟨?_, hlong, rfl, rfl⟩
    decide
  · refine (hnames _).2 ?_
    rintro ⟨letters, hletters⟩
    have hnone : Utf8.decode? [0xC3] = none := by decide +kernel
    rw [hletters, Utf8.decode?_encode] at hnone
    cases hnone

end CacheClient.Key
