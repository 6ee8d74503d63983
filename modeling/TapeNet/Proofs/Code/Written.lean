import TapeNet.Proofs.Extension.Header

/-!
# Programs as texts

Reading a source keeps its opcodes and drops its comments, among them all bytes
of its header.  A program can be written down again, with a header if it needs
one, and what was written is read as the same program.  Two sources are read as
the same program exactly if they enable the same extensions and one becomes the
other by inserting and deleting comments.
-/

namespace TapeNet

/-- Whether a byte can stand in a header: in its opening, between names or in a name. -/
def Extensions.IsHeaderByte (byte : UInt8) : Prop :=
  byte ∈ header ∨ byte = separator ∨ isNameByte byte = true

/-- The bytes of headers are comments, whatever is enabled. -/
theorem Opcode.isValid_eq_false_of_isHeaderByte {byte : UInt8}
    (inHeader : Extensions.IsHeaderByte byte) (enabled : Extensions) :
    isValid enabled byte = false := by
  have known : ∀ byte ∈ Extensions.header ++ Extensions.separator :: Extensions.netName,
      ofByte? byte = none := by decide +kernel
  have member : byte ∈ Extensions.header ++ Extensions.separator :: Extensions.netName := by
    rw [List.mem_append, List.mem_cons, ← Extensions.isNameByte_iff]
    exact inHeader
  rw [isValid, decode?, known byte member]
  rfl

namespace Code

/-- The bytes of a source that are opcodes, in their order; all others are dropped. -/
inductive Strips (enabled : Extensions) : List UInt8 → List UInt8 → Prop where
  | done : Strips enabled [] []
  | opcode {byte : UInt8} {source bytes : List UInt8}
      (valid : Opcode.isValid enabled byte = true) (rest : Strips enabled source bytes) :
      Strips enabled (byte :: source) (byte :: bytes)
  | comment {byte : UInt8} {source bytes : List UInt8}
      (dropped : Opcode.isValid enabled byte = false) (rest : Strips enabled source bytes) :
      Strips enabled (byte :: source) bytes

/-- One source becomes the other by inserting and deleting comments. -/
inductive Recommented (enabled : Extensions) : List UInt8 → List UInt8 → Prop where
  | done : Recommented enabled [] []
  | keep (byte : UInt8) {first second : List UInt8} (rest : Recommented enabled first second) :
      Recommented enabled (byte :: first) (byte :: second)
  | insert {byte : UInt8} {first second : List UInt8}
      (comment : Opcode.isValid enabled byte = false) (rest : Recommented enabled first second) :
      Recommented enabled first (byte :: second)
  | delete {byte : UInt8} {first second : List UInt8}
      (comment : Opcode.isValid enabled byte = false) (rest : Recommented enabled first second) :
      Recommented enabled (byte :: first) second

variable {enabled : Extensions}

theorem strips_filter (source : List UInt8) :
    Strips enabled source (source.filter (Opcode.isValid enabled)) := by
  induction source with
  | nil => exact .done
  | cons byte source ih =>
      cases valid : Opcode.isValid enabled byte with
      | true =>
          rw [List.filter_cons_of_pos valid]
          exact .opcode valid ih
      | false =>
          rw [List.filter_cons_of_neg (Bool.not_eq_true _ ▸ valid)]
          exact .comment valid ih

/-- There is only one way to strip a source of its comments. -/
theorem strips_iff {source bytes : List UInt8} :
    Strips enabled source bytes ↔ bytes = source.filter (Opcode.isValid enabled) := by
  constructor
  · intro stripped
    induction stripped with
    | done => rfl
    | opcode valid _ ih => rw [List.filter_cons_of_pos valid, ih]
    | comment dropped _ ih => rw [List.filter_cons_of_neg (Bool.not_eq_true _ ▸ dropped), ih]
  · rintro rfl
    exact strips_filter source

/-- What is dropped at the beginning of a source contributes nothing. -/
theorem strips_append_iff {front : List UInt8}
    (comments : ∀ byte ∈ front, Opcode.isValid enabled byte = false) (rest bytes : List UInt8) :
    Strips enabled (front ++ rest) bytes ↔ Strips enabled rest bytes := by
  have nothing : front.filter (Opcode.isValid enabled) = [] :=
    List.filter_eq_nil_iff.mpr fun byte member valid => by
      rw [comments byte member] at valid
      cases valid
  rw [strips_iff, strips_iff, List.filter_append, nothing, List.nil_append]

namespace Recommented

/-- Sources that differ by comments only are stripped to the same instructions. -/
theorem strips {first second bytes : List UInt8} (same : Recommented enabled first second)
    (stripped : Strips enabled first bytes) : Strips enabled second bytes := by
  induction same generalizing bytes with
  | done => exact stripped
  | keep byte _ ih =>
      cases stripped with
      | opcode valid rest => exact .opcode valid (ih rest)
      | comment dropped rest => exact .comment dropped (ih rest)
  | insert comment _ ih => exact .comment comment (ih stripped)
  | delete comment _ ih =>
      cases stripped with
      | opcode valid _ =>
          rw [comment] at valid
          cases valid
      | comment _ rest => exact ih rest

/-- Sources that are stripped to the same instructions differ by comments only. -/
theorem of_strips {first second bytes : List UInt8} (left : Strips enabled first bytes)
    (right : Strips enabled second bytes) : Recommented enabled first second := by
  induction left generalizing second with
  | done =>
      -- Nothing is kept, so all of the second source was inserted.
      generalize kept : ([] : List UInt8) = bytes at right
      induction right with
      | done => exact .done
      | opcode => cases kept
      | comment dropped _ ih => exact .insert dropped (ih kept)
  | @opcode byte source bytes valid _ ih =>
      -- Comments in front of the opcode were inserted; then comes the opcode itself.
      generalize kept : byte :: bytes = whole at right
      induction right with
      | done => cases kept
      | opcode _ rest _ =>
          cases kept
          exact .keep byte (ih rest)
      | comment dropped _ inner => exact .insert dropped (inner kept)
  | comment dropped _ ih => exact .delete dropped (ih right)

end Recommented

/-- The source that a program is written as: a header, if it needs one, and its instructions. -/
def text (code : Code) : List UInt8 :=
  (if code.hasExtensions .net then Extensions.netOpening ++ [Extensions.separator] else []) ++
    code.bytes.toList

theorem strips_parse (source : List UInt8) :
    Strips (parse source).extensions source (parse source).bytes.toList :=
  strips_filter source

/-- A program that is read depends on what is enabled and on the opcodes alone. -/
theorem parse_eq_of_strips {source : List UInt8} {code : Code} (starts : code.pc = 0)
    (same : Extensions.detect source = code.extensions)
    (stripped : Strips code.extensions source code.bytes.toList) : parse source = code := by
  obtain ⟨bytes, extensions, pc⟩ := code
  simp only at starts same
  subst starts same
  have whole : source.filter (Opcode.isValid (Extensions.detect source)) = bytes.toList :=
    (strips_iff.mp stripped).symm
  rw [parse, whole]

/-- A source of nothing but opcodes has no header, for it would begin with a comment. -/
theorem detect_of_isValid {source : List UInt8}
    (valid : ∀ byte ∈ source, Opcode.isValid enabled byte = true) :
    Extensions.detect source = .empty := by
  refine (Extensions.detect_eq _).resolve_right fun networked => ?_
  obtain ⟨rest, split⟩ := (Extensions.detect_eq_net_iff.mp networked).1
  have member : Char.toUInt8 't' ∈ source := by
    rw [← split]
    exact List.mem_cons_self
  have first := valid _ member
  rw [Opcode.isValid_eq_false_of_isHeaderByte (.inl List.mem_cons_self)] at first
  cases first

/-- A source of nothing but opcodes that need no extension is its own code. -/
theorem parse_of_isValid {source : List UInt8}
    (valid : ∀ byte ∈ source, Opcode.isValid .empty byte = true) :
    parse source = { bytes := source.toArray } := by
  rw [parse, detect_of_isValid valid, List.filter_eq_self.mpr valid]

/-- Writing and reading a program again, the same extensions are enabled as at first. -/
theorem detect_text (source : List UInt8) :
    Extensions.detect (parse source).text = (parse source).extensions := by
  rcases Extensions.detect_eq source with bare | networked
  · have plain : (parse source).text = (parse source).bytes.toList := by
      rw [text, hasExtensions, show (parse source).extensions = .empty from bare]
      rfl
    rw [plain, show (parse source).extensions = .empty from bare]
    exact detect_of_isValid fun byte member =>
      (List.mem_filter.mp (List.mem_toArray.mp (Array.mem_toList_iff.mp member))).2
  · have headed : (parse source).text =
        Extensions.netOpening ++ ([Extensions.separator] ++ (parse source).bytes.toList) := by
      rw [text, hasExtensions, show (parse source).extensions = .net from networked,
        ← List.append_assoc]
      rfl
    rw [headed, show (parse source).extensions = .net from networked, Extensions.detect_eq_net_iff]
    refine ⟨List.prefix_append _ _, ?_⟩
    rw [List.length_append, List.length_append]
    exact Nat.lt_add_of_pos_right (Nat.lt_add_right _ (Nat.zero_lt_one))

/-- A written program is stripped of nothing but its header. -/
theorem strips_text (source : List UInt8) :
    Strips (parse source).extensions (parse source).text (parse source).bytes.toList := by
  have kept : Strips (parse source).extensions (parse source).bytes.toList
      (parse source).bytes.toList := by
    have all := (strips_iff.mp (strips_parse source))
    rw [strips_iff, all, List.filter_filter]
    simp only [Bool.and_self]
  unfold text
  split
  · refine (strips_append_iff ?_ _ _).mpr kept
    intro byte member
    have known : ∀ byte ∈ Extensions.netOpening ++ [Extensions.separator],
        byte ∈ Extensions.header ∨ byte = Extensions.separator ∨
          Extensions.isNameByte byte = true := by decide +kernel
    exact Opcode.isValid_eq_false_of_isHeaderByte (known byte member) _
  · exact kept

theorem parse_eq_parse_iff {source other : List UInt8} :
    parse other = parse source ↔
      Extensions.detect other = Extensions.detect source ∧
        Recommented (Extensions.detect source) source other := by
  constructor
  · intro same
    have stripped := strips_parse other
    rw [same] at stripped
    exact ⟨congrArg Code.extensions same, .of_strips (strips_parse source) stripped⟩
  · rintro ⟨detected, recommented⟩
    exact parse_eq_of_strips rfl detected (recommented.strips (strips_parse source))

/-- What the program read from a source has to do with the bytes of the source. -/
structure Canonical (source : List UInt8) : Prop where
  extensions_eq : (parse source).extensions = Extensions.detect source
  pc_eq : (parse source).pc = 0
  /-- The instructions are the opcodes of the source, in their order. -/
  strips_iff : ∀ bytes,
    Strips (parse source).extensions source bytes ↔ bytes = (parse source).bytes.toList
  /-- The program that is written down again is read as the same program. -/
  parse_text : parse (parse source).text = parse source
  /-- Sources are read alike if they enable the same and differ by comments only, and only then. -/
  parse_eq_iff : ∀ other, parse other = parse source ↔
    Extensions.detect other = Extensions.detect source ∧
      Recommented (Extensions.detect source) source other
  /-- No instruction comes from the bytes of a header. -/
  behind_header : ∀ front rest, source = front ++ rest →
    (∀ byte ∈ front, Extensions.IsHeaderByte byte) →
      Strips (parse source).extensions rest (parse source).bytes.toList

/-- A source is read as the program that is written with its opcodes alone. -/
theorem parse_canonical (source : List UInt8) : Canonical source where
  extensions_eq := rfl
  pc_eq := rfl
  strips_iff _ := Code.strips_iff
  parse_text := parse_eq_of_strips rfl (detect_text source) (strips_text source)
  parse_eq_iff _ := parse_eq_parse_iff
  behind_header := by
    intro front rest split inHeader
    have comments : ∀ byte ∈ front, Opcode.isValid (parse source).extensions byte = false :=
      fun byte member => Opcode.isValid_eq_false_of_isHeaderByte (inHeader byte member) _
    rw [← strips_append_iff comments, ← split]
    exact strips_parse source

end Code

end TapeNet
