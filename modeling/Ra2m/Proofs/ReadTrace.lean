/-
A trace file is read back only while the newlines in it are few and well placed.

The reader decodes a record at the first newline behind the end of its encoding.  The
newlines inside the encoding cost one retry each, and with more than `bincodeMaxRetry` of
them the reader gives up before it has seen the record whole.  Where the encoding itself
ends in a newline it is decoded one byte too early: the newline written behind it is then
taken for the first byte of the next record, and nothing is found again.

In both cases the reader stops, with success if it has read a record before.  `InStep` says
that neither happens, and `readChunks_file` follows the reader record by record.
-/
import Ra2m.Tools.Trace

namespace Ra2m

namespace Trace

variable {T ε : Type*} {serialize : String × T → List UInt8}
  {deserialize : List UInt8 → Except ε (String × T)}

/-- The decoder reports an error. -/
def Fails (deserialize : List UInt8 → Except ε (String × T)) (buf : List UInt8) : Prop :=
  ∃ err, deserialize buf = .error err

/-- What bincode promises of a record: it is told from its encoding, whatever follows, and an
encoding that is not all there is an error.  The length of the port name is always written. -/
structure Lawful (serialize : String × T → List UInt8)
    (deserialize : List UInt8 → Except ε (String × T)) (r : String × T) : Prop where
  selfDelimiting : ∀ tail, deserialize (serialize r ++ tail) = .ok r
  truncated : ∀ buf, buf <+: serialize r → buf ≠ serialize r → Fails deserialize buf
  nonempty : serialize r ≠ []

/-- The newlines the reader meets before it holds the whole encoding. -/
def innerDelimiters (bytes : List UInt8) : Nat := bytes.dropLast.count bincodeStreamDelimiter

def EndsInDelimiter (bytes : List UInt8) : Prop :=
  bytes.getLast? = some bincodeStreamDelimiter

instance decidableEndsInDelimiter (bytes : List UInt8) : Decidable (EndsInDelimiter bytes) :=
  inferInstanceAs (Decidable (_ = _))

/-- The decoder fails on all the buffers the reader tries before it gives up. -/
def Unreadable (deserialize : List UInt8 → Except ε (String × T)) (bytes : List UInt8) : Prop :=
  ∀ front, front <+: Chunks.split bincodeStreamDelimiter bytes → front ≠ [] →
    front.length ≤ bincodeMaxRetry + 1 → Fails deserialize front.flatten

/-- The reader meets no record with too many newlines, and none but the last ends in one.  If
the last one does, the bytes left of the next record are not taken for something else. -/
structure InStep (serialize : String × T → List UInt8)
    (deserialize : List UInt8 → Except ε (String × T)) (rs : List (String × T))
    (cut : Option ((String × T) × Nat)) : Prop where
  retries : ∀ r ∈ complete serialize rs cut, innerDelimiters (serialize r) ≤ bincodeMaxRetry
  aligned : ∀ pre r post, rs = pre ++ r :: post → EndsInDelimiter (serialize r) →
    complete serialize post cut = [] ∧
      Unreadable deserialize (bincodeStreamDelimiter :: file serialize post cut)

/-- And if there is no complete record at all, the reader is not stopped by an error. -/
structure Fits (serialize : String × T → List UInt8)
    (deserialize : List UInt8 → Except ε (String × T)) (rs : List (String × T))
    (cut : Option ((String × T) × Nat)) : Prop extends InStep serialize deserialize rs cut where
  started : complete serialize rs cut = [] →
    innerDelimiters (file serialize rs cut) < bincodeMaxRetry

/-- A record read one byte too early is not taken for another one. -/
def NoMisread (serialize : String × T → List UInt8)
    (deserialize : List UInt8 → Except ε (String × T)) (rs : List (String × T))
    (cut : Option ((String × T) × Nat)) : Prop :=
  ∀ pre r post, rs = pre ++ r :: post → EndsInDelimiter (serialize r) →
    complete serialize post cut ≠ [] →
      Unreadable deserialize (bincodeStreamDelimiter :: file serialize post cut)

/-! ### The map the reader fills -/

theorem values_append (rs rs' : List (String × T)) (port : String) :
    values (rs ++ rs') port = values rs port ++ values rs' port := by
  simp [values]

theorem values_singleton (r : String × T) (port : String) :
    values [r] port = if r.1 = port then [r.2] else [] := by
  by_cases h : r.1 = port <;> simp [values, h]

@[simp] theorem entriesOf_nil : entriesOf ([] : List (String × T)) = fun _ => none := rfl

theorem getD_entriesOf (rs : List (String × T)) (port : String) :
    (entriesOf rs port).getD [] = values rs port := by
  unfold entriesOf
  by_cases h : values rs port = [] <;> simp [h]

theorem entriesOf_push (rs : List (String × T)) (r : String × T) :
    (entriesOf rs).push r.1 r.2 = entriesOf (rs ++ [r]) := by
  funext port
  unfold Entries.push
  rw [getD_entriesOf]
  by_cases hport : port = r.1
  · subst hport
    simp [entriesOf, values_append, values_singleton]
  · rw [Function.update_of_ne hport]
    simp [entriesOf, values_append, values_singleton, Ne.symm hport]

/-- A record more is seen at its port. -/
theorem entriesOf_append_ne (rs : List (String × T)) (r : String × T) (rs' : List (String × T)) :
    entriesOf (rs ++ r :: rs') ≠ entriesOf rs := by
  intro h
  have hport := congrArg (·.getD []) (congrFun h r.1)
  simp only [getD_entriesOf] at hport
  rw [List.append_cons, values_append, values_append, values_singleton] at hport
  simp at hport

/-! ### One chunk -/

/-- The reader gives up. -/
def Stopped (success : Nat) (map : Entries T) (res : Except ε (Entries T)) : Prop :=
  (0 < success → res = .ok map) ∧ (success = 0 → ∃ err, res = .error err)

section Chunk

variable {chunk buf : List UInt8} {chunks : List (List UInt8)} {retry success : Nat}
  {map : Entries T}

/-- A buffer with no retry pending is cleared. -/
theorem readChunks_clear :
    readChunks deserialize chunks buf 0 success map =
      readChunks deserialize chunks [] 0 success map := by
  cases chunks <;> rfl

theorem held_eq (hbuf : retry = 0 → buf = []) : (if 0 = retry then [] else buf) = buf := by
  by_cases h : 0 = retry
  · rw [if_pos h, hbuf h.symm]
  · rw [if_neg h]

theorem readChunks_ok {r : String × T} (hbuf : retry = 0 → buf = [])
    (h : deserialize (buf ++ chunk) = .ok r) :
    readChunks deserialize (chunk :: chunks) buf retry success map =
      readChunks deserialize chunks [] 0 (success + 1) (map.push r.1 r.2) := by
  simp only [readChunks, held_eq hbuf, h]
  exact readChunks_clear

theorem readChunks_error (hbuf : retry = 0 → buf = []) (h : Fails deserialize (buf ++ chunk))
    (hretry : retry < bincodeMaxRetry) :
    readChunks deserialize (chunk :: chunks) buf retry success map =
      readChunks deserialize chunks (buf ++ chunk) (retry + 1) success map := by
  obtain ⟨err, herr⟩ := h
  simp only [readChunks, held_eq hbuf, herr]
  rw [if_neg (by omega)]

theorem readChunks_stop (hbuf : retry = 0 → buf = []) (h : Fails deserialize (buf ++ chunk))
    (hretry : bincodeMaxRetry ≤ retry) :
    Stopped success map (readChunks deserialize (chunk :: chunks) buf retry success map) := by
  obtain ⟨err, herr⟩ := h
  simp only [readChunks, held_eq hbuf, herr]
  rw [if_pos (by omega)]
  constructor
  · intro hs
    rw [if_pos hs]
  · intro hs
    rw [if_neg (by omega)]
    exact ⟨err, rfl⟩

end Chunk

/-- Whatever the reader returns, it has read some records. -/
theorem readChunks_pushes (chunks : List (List UInt8)) :
    ∀ (buf : List UInt8) (retry success : Nat) (read : List (String × T)),
      (∃ err, readChunks deserialize chunks buf retry success (entriesOf read) = .error err) ∨
        ∃ more, readChunks deserialize chunks buf retry success (entriesOf read) =
          .ok (entriesOf (read ++ more)) := by
  induction chunks with
  | nil =>
      intro buf retry success read
      exact .inr ⟨[], by rw [List.append_nil]; rfl⟩
  | cons chunk chunks ih =>
      intro buf retry success read
      simp only [readChunks]
      cases hd : deserialize ((if 0 = retry then [] else buf) ++ chunk) with
      | ok r =>
          simp only [entriesOf_push]
          rcases ih ((if 0 = retry then [] else buf) ++ chunk) 0 (success + 1) (read ++ [r]) with
            herr | ⟨more, hmore⟩
          · exact .inl herr
          · exact .inr ⟨r :: more, by rw [hmore, List.append_assoc, List.singleton_append]⟩
      | error err =>
          dsimp only
          by_cases hretry : bincodeMaxRetry < retry + 1
          · rw [if_pos hretry]
            by_cases hs : 0 < success
            · exact .inr ⟨[], by rw [if_pos hs, List.append_nil]⟩
            · exact .inl ⟨err, by rw [if_neg hs]⟩
          · rw [if_neg hretry]
            exact ih _ _ _ _

/-! ### Chunks that do not decode -/

/-- The decoder fails on the buffers tried while `chunks` are appended to `buf`. -/
def NeverDecodes (deserialize : List UInt8 → Except ε (String × T)) (chunks : List (List UInt8))
    (buf : List UInt8) (retry : Nat) : Prop :=
  ∀ front, front <+: chunks → front ≠ [] → retry + front.length ≤ bincodeMaxRetry + 1 →
    Fails deserialize (buf ++ front.flatten)

theorem neverDecodes_iff_unreadable {bytes : List UInt8} :
    NeverDecodes deserialize (Chunks.split bincodeStreamDelimiter bytes) [] 0 ↔
      Unreadable deserialize bytes := by
  simp [NeverDecodes, Unreadable]

theorem NeverDecodes.head {chunk buf : List UInt8} {chunks : List (List UInt8)} {retry : Nat}
    (h : NeverDecodes deserialize (chunk :: chunks) buf retry) (hretry : retry ≤ bincodeMaxRetry) :
    Fails deserialize (buf ++ chunk) := by
  have := h [chunk] (by simp) (by simp) (by simpa using hretry)
  simpa using this

theorem NeverDecodes.tail {chunk buf : List UInt8} {chunks : List (List UInt8)} {retry : Nat}
    (h : NeverDecodes deserialize (chunk :: chunks) buf retry) :
    NeverDecodes deserialize chunks (buf ++ chunk) (retry + 1) := by
  intro front hfront _ hlen
  have := h (chunk :: front) (by simpa using hfront) (by simp)
    (by rw [List.length_cons]; omega)
  simpa using this

theorem neverDecodes_cons {chunk buf : List UInt8} {chunks : List (List UInt8)} {retry : Nat}
    (hhead : Fails deserialize (buf ++ chunk))
    (htail : NeverDecodes deserialize chunks (buf ++ chunk) (retry + 1)) :
    NeverDecodes deserialize (chunk :: chunks) buf retry := by
  intro front hfront hne hlen
  cases front with
  | nil => exact absurd rfl hne
  | cons c front =>
      obtain ⟨rfl, hpre⟩ := List.cons_prefix_cons.mp hfront
      cases front with
      | nil => simpa using hhead
      | cons c' front =>
          have := htail (c' :: front) hpre (by simp) (by simp at hlen ⊢; omega)
          simpa using this

section Failing

variable {rest : List (List UInt8)} {success : Nat} {map : Entries T}

/-- With retries left, the chunks are all in the buffer afterwards. -/
theorem readChunks_append : ∀ {chunks : List (List UInt8)} {buf : List UInt8} {retry : Nat},
    (retry = 0 → buf = []) → NeverDecodes deserialize chunks buf retry →
    retry + chunks.length ≤ bincodeMaxRetry →
      readChunks deserialize (chunks ++ rest) buf retry success map =
        readChunks deserialize rest (buf ++ chunks.flatten) (retry + chunks.length) success
          map := by
  intro chunks
  induction chunks with
  | nil =>
      intro buf retry _ _ _
      simp
  | cons chunk chunks ih =>
      intro buf retry hbuf h hlen
      rw [List.length_cons] at hlen
      rw [List.cons_append, readChunks_error hbuf (h.head (by omega)) (by omega),
        ih (by simp) h.tail (by omega)]
      simp [Nat.add_comm, Nat.add_left_comm]

/-- With too many of them the reader gives up. -/
theorem readChunks_giveUp : ∀ {chunks : List (List UInt8)} {buf : List UInt8} {retry : Nat},
    (retry = 0 → buf = []) → NeverDecodes deserialize chunks buf retry →
    retry ≤ bincodeMaxRetry → bincodeMaxRetry < retry + chunks.length →
      Stopped success map (readChunks deserialize (chunks ++ rest) buf retry success map) := by
  intro chunks
  induction chunks with
  | nil =>
      intro buf retry _ _ hretry hlen
      rw [List.length_nil] at hlen
      omega
  | cons chunk chunks ih =>
      intro buf retry hbuf h hretry hlen
      rw [List.length_cons] at hlen
      rw [List.cons_append]
      by_cases hlast : retry = bincodeMaxRetry
      · exact readChunks_stop hbuf (h.head hretry) (Nat.le_of_eq hlast.symm)
      · rw [readChunks_error hbuf (h.head hretry) (by omega)]
        exact ih (by simp) h.tail (by omega) (by omega)

/-- If one of the buffers decodes after all, the reader has a record from it. -/
theorem readChunks_misread (success : Nat) (map : Entries T) :
    ∀ {chunks : List (List UInt8)} {buf : List UInt8} {retry : Nat}, (retry = 0 → buf = []) →
    ¬ NeverDecodes deserialize chunks buf retry → retry ≤ bincodeMaxRetry →
      ∃ (r : String × T) (chunks' : List (List UInt8)),
        readChunks deserialize chunks buf retry success map =
          readChunks deserialize chunks' [] 0 (success + 1) (map.push r.1 r.2) := by
  intro chunks
  induction chunks with
  | nil =>
      intro buf retry _ h _
      exact absurd (fun front hfront hne => absurd (List.prefix_nil.mp hfront) hne) h
  | cons chunk chunks ih =>
      intro buf retry hbuf h hretry
      cases hd : deserialize (buf ++ chunk) with
      | ok r => exact ⟨r, chunks, readChunks_ok hbuf hd⟩
      | error err =>
          have htail : ¬ NeverDecodes deserialize chunks (buf ++ chunk) (retry + 1) :=
            fun htail => h (neverDecodes_cons ⟨err, hd⟩ htail)
          by_cases hlast : retry = bincodeMaxRetry
          · -- no buffer is tried after this one
            refine absurd ?_ htail
            intro front _ hne hlen
            have := List.length_pos_iff.mpr hne
            omega
          · rw [readChunks_error hbuf ⟨err, hd⟩ (by omega)]
            exact ih (by simp) htail (by omega)

end Failing

/-- A file that does not decode is left aside, once a record has been read. -/
theorem readChunks_unreadable {bytes : List UInt8} {success : Nat} {map : Entries T}
    (h : Unreadable deserialize bytes) (hs : 0 < success) :
    readChunks deserialize (Chunks.split bincodeStreamDelimiter bytes) [] 0 success map =
      .ok map := by
  rw [← neverDecodes_iff_unreadable] at h
  rw [← List.append_nil (Chunks.split bincodeStreamDelimiter bytes)]
  by_cases hlen : (Chunks.split bincodeStreamDelimiter bytes).length ≤ bincodeMaxRetry
  · rw [readChunks_append (by simp) h (by omega)]
    rfl
  · exact (readChunks_giveUp (by simp) h (by omega) (by omega)).1 hs

/-! ### One record -/

theorem unreadable_of_prefixes {bytes : List UInt8}
    (h : ∀ buf, buf <+: bytes → Fails deserialize buf) : Unreadable deserialize bytes := by
  rintro front ⟨back, hback⟩ _ _
  apply h
  refine ⟨back.flatten, ?_⟩
  rw [← List.flatten_append, hback, Chunks.flatten_split]

/-- An encoding is cut behind the last newline that is not its last byte. -/
theorem exists_line {bytes : List UInt8} (hne : bytes ≠ []) :
    ∃ front line last, bytes = front ++ (line ++ [last]) ∧ bincodeStreamDelimiter ∉ line ∧
      Chunks.Closed bincodeStreamDelimiter front ∧
      (Chunks.split bincodeStreamDelimiter front).length = innerDelimiters bytes := by
  obtain ⟨front, line, heq, hline, hclosed, hlen⟩ :=
    Chunks.exists_lastDelim bincodeStreamDelimiter bytes.dropLast
  refine ⟨front, line, bytes.getLast hne, ?_, hline, hclosed, hlen⟩
  rw [← List.append_assoc, ← heq, List.dropLast_concat_getLast]

theorem endsInDelimiter_iff {front line : List UInt8} {last : UInt8} :
    EndsInDelimiter (front ++ (line ++ [last])) ↔ last = bincodeStreamDelimiter := by
  rw [EndsInDelimiter, ← List.append_assoc, List.getLast?_concat, Option.some_inj]

namespace Lawful

variable {r : String × T}

/-- The bytes in front of the end of an encoding do not decode. -/
theorem unreadable (h : Lawful serialize deserialize r) {front line : List UInt8}
    (heq : serialize r = front ++ line) (hne : line ≠ []) : Unreadable deserialize front := by
  apply unreadable_of_prefixes
  rintro buf ⟨rest, rfl⟩
  apply h.truncated
  · exact ⟨rest ++ line, by rw [heq, List.append_assoc]⟩
  · intro hbuf
    rw [hbuf] at heq
    have := congrArg List.length heq
    have := List.length_pos_iff.mpr hne
    simp only [List.length_append] at *
    omega

variable {success : Nat} {map : Entries T}

/-- The first chunk that holds the end of the encoding gives the record. -/
theorem readChunks_line (h : Lawful serialize deserialize r) {front line chunk : List UInt8}
    {chunks : List (List UInt8)} (heq : serialize r = front ++ line) (hne : line ≠ [])
    (hchunk : line <+: chunk)
    (hlen : (Chunks.split bincodeStreamDelimiter front).length ≤ bincodeMaxRetry) :
    readChunks deserialize (Chunks.split bincodeStreamDelimiter front ++ chunk :: chunks) []
        0 success map =
      readChunks deserialize chunks [] 0 (success + 1) (map.push r.1 r.2) := by
  obtain ⟨tail, rfl⟩ := hchunk
  rw [readChunks_append (by simp) (neverDecodes_iff_unreadable.mpr (h.unreadable heq hne))
    (by omega), Chunks.flatten_split]
  apply readChunks_ok
  · intro hzero
    have hnil : Chunks.split bincodeStreamDelimiter front = [] :=
      List.length_eq_zero_iff.mp (by omega)
    rw [List.nil_append, ← Chunks.flatten_split bincodeStreamDelimiter front, hnil]
    rfl
  · have := h.selfDelimiting tail
    rw [heq] at this
    simpa using this

/-- A record whose encoding ends in a newline is decoded with that newline. -/
theorem readChunks_ends (h : Lawful serialize deserialize r)
    (hinner : innerDelimiters (serialize r) ≤ bincodeMaxRetry)
    (hends : EndsInDelimiter (serialize r)) (rest : List UInt8) :
    readChunks deserialize (Chunks.split bincodeStreamDelimiter (serialize r ++ rest)) []
        0 success map =
      readChunks deserialize (Chunks.split bincodeStreamDelimiter rest) []
        0 (success + 1) (map.push r.1 r.2) := by
  obtain ⟨front, line, last, heq, hline, hclosed, hlen⟩ := exists_line h.nonempty
  obtain rfl := endsInDelimiter_iff.mp (heq ▸ hends)
  rw [heq, List.append_assoc, hclosed.split_append, List.append_assoc, List.singleton_append,
    Chunks.split_line hline]
  exact h.readChunks_line heq (by simp) List.prefix_rfl (by omega)

/-- Another one is decoded with the newline behind it. -/
theorem readChunks_newline (h : Lawful serialize deserialize r)
    (hinner : innerDelimiters (serialize r) ≤ bincodeMaxRetry)
    (hends : ¬ EndsInDelimiter (serialize r)) (rest : List UInt8) :
    readChunks deserialize
        (Chunks.split bincodeStreamDelimiter (serialize r ++ bincodeStreamDelimiter :: rest)) []
        0 success map =
      readChunks deserialize (Chunks.split bincodeStreamDelimiter rest) []
        0 (success + 1) (map.push r.1 r.2) := by
  obtain ⟨front, line, last, heq, hline, hclosed, hlen⟩ := exists_line h.nonempty
  have hlast : last ≠ bincodeStreamDelimiter := fun hlast =>
    hends (heq ▸ endsInDelimiter_iff.mpr hlast)
  have hmem : bincodeStreamDelimiter ∉ line ++ [last] := by
    simpa [hline] using Ne.symm hlast
  rw [heq, List.append_assoc, hclosed.split_append, Chunks.split_line hmem]
  exact h.readChunks_line heq (by simp) (List.prefix_append ..) (by omega)

/-- At the end of the file the whole encoding is enough. -/
theorem readChunks_last (h : Lawful serialize deserialize r)
    (hinner : innerDelimiters (serialize r) ≤ bincodeMaxRetry) :
    readChunks deserialize (Chunks.split bincodeStreamDelimiter (serialize r)) [] 0 success map =
      .ok (map.push r.1 r.2) := by
  obtain ⟨front, line, last, heq, hline, hclosed, hlen⟩ := exists_line h.nonempty
  have hlast : Chunks.split bincodeStreamDelimiter (line ++ [last]) = [line ++ [last]] :=
    Chunks.split_of_not_mem_dropLast (by simp) (by simpa using hline)
  rw [heq, hclosed.split_append, hlast,
    h.readChunks_line heq (by simp) List.prefix_rfl (by omega)]
  rfl

/-- With too many newlines inside, the reader gives up before the end of the encoding. -/
theorem readChunks_tooMany (h : Lawful serialize deserialize r)
    (hinner : bincodeMaxRetry < innerDelimiters (serialize r)) (rest : List UInt8) :
    Stopped success map
      (readChunks deserialize (Chunks.split bincodeStreamDelimiter (serialize r ++ rest)) []
        0 success map) := by
  obtain ⟨front, line, last, heq, hline, hclosed, hlen⟩ := exists_line h.nonempty
  have hfront := neverDecodes_iff_unreadable.mpr (h.unreadable heq (by simp))
  rw [heq, List.append_assoc, hclosed.split_append]
  exact readChunks_giveUp (by simp) hfront (by omega) (by omega)

end Lawful

/-! ### The file -/

section File

variable {rs : List (String × T)} {cut : Option ((String × T) × Nat)} {r : String × T}

theorem file_cons : file serialize (r :: rs) cut =
    serialize r ++ bincodeStreamDelimiter :: file serialize rs cut := by
  simp [file, trace]

theorem complete_cons :
    complete serialize (r :: rs) cut = r :: complete serialize rs cut := by
  unfold complete
  split
  · rfl
  · split <;> rfl

theorem eq_nil_of_complete_eq_nil (h : complete serialize rs cut = []) : rs = [] := by
  cases rs with
  | nil => rfl
  | cons r rs =>
      rw [complete_cons] at h
      exact absurd h (List.cons_ne_nil _ _)

theorem inStep_nil : InStep serialize deserialize [] cut ↔
    ∀ r ∈ complete serialize [] cut, innerDelimiters (serialize r) ≤ bincodeMaxRetry := by
  constructor
  · exact InStep.retries
  · intro h
    exact ⟨h, by simp⟩

theorem inStep_cons : InStep serialize deserialize (r :: rs) cut ↔
    innerDelimiters (serialize r) ≤ bincodeMaxRetry ∧
      (EndsInDelimiter (serialize r) → complete serialize rs cut = [] ∧
        Unreadable deserialize (bincodeStreamDelimiter :: file serialize rs cut)) ∧
      InStep serialize deserialize rs cut := by
  constructor
  · rintro ⟨hretries, haligned⟩
    rw [complete_cons, List.forall_mem_cons] at hretries
    refine ⟨hretries.1, haligned [] r rs rfl, hretries.2, ?_⟩
    intro pre r' post heq
    exact haligned (r :: pre) r' post (by rw [heq]; rfl)
  · rintro ⟨hinner, hends, hretries, haligned⟩
    refine ⟨by rw [complete_cons]; exact List.forall_mem_cons.mpr ⟨hinner, hretries⟩, ?_⟩
    intro pre r' post heq
    cases pre with
    | nil =>
        obtain ⟨rfl, rfl⟩ := List.cons.inj heq
        exact hends
    | cons r'' pre => exact haligned pre r' post (List.cons.inj heq).2

theorem NoMisread.tail (h : NoMisread serialize deserialize (r :: rs) cut) :
    NoMisread serialize deserialize rs cut := by
  intro pre r' post heq
  exact h (r :: pre) r' post (by rw [heq]; rfl)

/-- In step nothing is misread. -/
theorem InStep.noMisread (h : InStep serialize deserialize rs cut) :
    NoMisread serialize deserialize rs cut :=
  fun pre r post heq hends hne => absurd (h.aligned pre r post heq hends).1 hne

end File

/-- The reader returns an error, or the map of fewer records, or of more. -/
inductive Differs (expected : List (String × T)) : Except ε (Entries T) → Prop
  | error (err : ε) : Differs expected (.error err)
  | fewer (read : List (String × T)) (r : String × T) (rest : List (String × T))
      (heq : expected = read ++ r :: rest) : Differs expected (.ok (entriesOf read))
  | more (r : String × T) (rest : List (String × T)) :
      Differs expected (.ok (entriesOf (expected ++ r :: rest)))

theorem Differs.ne {expected : List (String × T)} {res : Except ε (Entries T)}
    (h : Differs expected res) : res ≠ .ok (entriesOf expected) := by
  intro heq
  cases h with
  | error err => cases heq
  | fewer read r rest hread =>
      subst hread
      exact entriesOf_append_ne _ _ _ (Except.ok.inj heq).symm
  | more r rest => exact entriesOf_append_ne _ _ _ (Except.ok.inj heq)

theorem Stopped.differs {read rest : List (String × T)} {r : String × T}
    {res : Except ε (Entries T)} (h : Stopped read.length (entriesOf read) res) :
    Differs (read ++ r :: rest) res := by
  rcases Nat.eq_zero_or_pos read.length with hzero | hpos
  · obtain ⟨err, rfl⟩ := h.2 hzero
    exact .error err
  · rw [h.1 hpos]
    exact .fewer read r rest rfl

/-- The reader returns what is expected under a condition, and something else without it. -/
def ReturnsWhen (cond : Prop) (expected : List (String × T)) (res : Except ε (Entries T)) : Prop :=
  (cond → res = .ok (entriesOf expected)) ∧ (¬ cond → Differs expected res)

theorem ReturnsWhen.iff {cond : Prop} {expected : List (String × T)}
    {res : Except ε (Entries T)} (h : ReturnsWhen cond expected res) :
    res = .ok (entriesOf expected) ↔ cond :=
  ⟨fun hres => by_contra fun hcond => (h.2 hcond).ne hres, h.1⟩

theorem ReturnsWhen.congr {cond cond' : Prop} {expected : List (String × T)}
    {res : Except ε (Entries T)} (h : ReturnsWhen cond expected res) (hcond : cond ↔ cond') :
    ReturnsWhen cond' expected res :=
  ⟨fun hc => h.1 (hcond.mpr hc), fun hc => h.2 (fun hc' => hc (hcond.mp hc'))⟩

section Run

variable {rs : List (String × T)} {cut : Option ((String × T) × Nat)}

/-- The end of the file, with what was written of the last record. -/
theorem readChunks_cut (hcut : ∀ r n, cut = some (r, n) → Lawful serialize deserialize r)
    {read : List (String × T)} (hstart : read ≠ [] ∨ complete serialize [] cut ≠ []) :
    ReturnsWhen (InStep serialize deserialize [] cut) (read ++ complete serialize [] cut)
      (readChunks deserialize (Chunks.split bincodeStreamDelimiter (file serialize [] cut)) []
        0 read.length (entriesOf read)) := by
  cases cut with
  | none =>
      constructor
      · intro _
        simp [complete, file, readChunks]
      · intro hstep
        exact absurd (inStep_nil.mpr (by simp [complete])) hstep
  | some cut =>
      obtain ⟨r, n⟩ := cut
      have h := hcut r n rfl
      have hfile : file serialize [] (some (r, n)) = (serialize r).take n := rfl
      refine ReturnsWhen.congr ?_ inStep_nil.symm
      rw [hfile]
      by_cases hwhole : (serialize r).length ≤ n
      · have hcomplete : complete serialize [] (some (r, n)) = [r] := by
          simp [complete, hwhole]
        rw [hcomplete, List.take_of_length_le hwhole, List.forall_mem_singleton]
        constructor
        · intro hinner
          rw [h.readChunks_last hinner, entriesOf_push]
        · intro hinner
          rw [← List.append_nil (serialize r)]
          exact (h.readChunks_tooMany (by omega) []).differs
      · -- the encoding is cut: nothing of it decodes
        have hcomplete : complete serialize [] (some (r, n)) = [] := by
          simp [complete, hwhole]
        rw [hcomplete] at hstart ⊢
        have hread : 0 < read.length := List.length_pos_iff.mpr (by simpa using hstart)
        have hunread := h.unreadable (List.take_append_drop n _).symm (by simpa using hwhole)
        constructor
        · intro _
          rw [readChunks_unreadable hunread hread, List.append_nil]
        · intro hinner
          exact absurd (by simp) hinner

/-- Behind a record that ends in a newline, the one written behind it comes first. -/
theorem readChunks_behind {read : List (String × T)} (hread : read ≠ [])
    (hmis : complete serialize rs cut ≠ [] →
      Unreadable deserialize (bincodeStreamDelimiter :: file serialize rs cut)) :
    ReturnsWhen
      (complete serialize rs cut = [] ∧
        Unreadable deserialize (bincodeStreamDelimiter :: file serialize rs cut))
      (read ++ complete serialize rs cut)
      (readChunks deserialize
        (Chunks.split bincodeStreamDelimiter (bincodeStreamDelimiter :: file serialize rs cut)) []
        0 read.length (entriesOf read)) := by
  have hpos : 0 < read.length := List.length_pos_iff.mpr hread
  constructor
  · rintro ⟨hnone, hun⟩
    rw [readChunks_unreadable hun hpos, hnone, List.append_nil]
  · intro hcond
    by_cases hun : Unreadable deserialize (bincodeStreamDelimiter :: file serialize rs cut)
    · -- the records that follow are lost
      obtain ⟨r, rest, hrest⟩ := List.exists_cons_of_ne_nil fun hnone => hcond ⟨hnone, hun⟩
      rw [readChunks_unreadable hun hpos, hrest]
      exact .fewer read r rest rfl
    · -- the bytes left of the next record are taken for a record
      have hnone : complete serialize rs cut = [] := by_contra fun hne => hun (hmis hne)
      obtain ⟨r, chunks, hmisread⟩ := readChunks_misread read.length (entriesOf read)
        (fun _ => rfl) (fun h => hun (neverDecodes_iff_unreadable.mp h)) (Nat.zero_le _)
      rw [hmisread, hnone, List.append_nil, entriesOf_push]
      rcases readChunks_pushes chunks [] 0 (read.length + 1) (read ++ [r]) with
        ⟨err, herr⟩ | ⟨rest, hrest⟩
      · rw [herr]
        exact .error err
      · rw [hrest, List.append_assoc, List.singleton_append]
        exact .more r rest

/-- The reader follows the file record by record as long as it is in step; out of step it does
not return the records. -/
theorem readChunks_file (hcut : ∀ r n, cut = some (r, n) → Lawful serialize deserialize r) :
    ∀ read : List (String × T), (∀ r ∈ rs, Lawful serialize deserialize r) →
    NoMisread serialize deserialize rs cut → (read ≠ [] ∨ complete serialize rs cut ≠ []) →
      ReturnsWhen (InStep serialize deserialize rs cut) (read ++ complete serialize rs cut)
        (readChunks deserialize (Chunks.split bincodeStreamDelimiter (file serialize rs cut)) []
          0 read.length (entriesOf read)) := by
  induction rs with
  | nil => exact fun _ _ _ hstart => readChunks_cut hcut hstart
  | cons r rs ih =>
      intro read hrs hmis _
      have h := hrs r List.mem_cons_self
      have hlen : (read ++ [r]).length = read.length + 1 := by simp
      refine ReturnsWhen.congr ?_ inStep_cons.symm
      rw [file_cons, complete_cons]
      by_cases hinner : innerDelimiters (serialize r) ≤ bincodeMaxRetry
      · by_cases hends : EndsInDelimiter (serialize r)
        · rw [h.readChunks_ends hinner hends, entriesOf_push, ← hlen, List.append_cons]
          refine (readChunks_behind (by simp) (hmis [] r rs rfl hends)).congr ?_
          simp only [hinner, hends, true_and, forall_const, iff_self_and]
          rintro ⟨hnone, _⟩
          obtain rfl := eq_nil_of_complete_eq_nil hnone
          exact inStep_nil.mpr (by simp [hnone])
        · rw [h.readChunks_newline hinner hends, entriesOf_push, ← hlen, List.append_cons]
          refine (ih _ (fun r' hr' => hrs r' (List.mem_cons_of_mem _ hr')) hmis.tail
            (by simp)).congr ?_
          simp [hinner, hends]
      · exact ⟨fun hstep => absurd hstep.1 hinner,
          fun _ => (h.readChunks_tooMany (by omega) _).differs⟩

/-- With no complete record nothing decodes, and the question is whether the reader gives up. -/
theorem readTrace_empty (hcut : ∀ r n, cut = some (r, n) → Lawful serialize deserialize r)
    (hnone : complete serialize rs cut = []) :
    ReturnsWhen (innerDelimiters (file serialize rs cut) < bincodeMaxRetry) []
      (readTrace deserialize (file serialize rs cut)) := by
  obtain rfl := eq_nil_of_complete_eq_nil hnone
  by_cases hfile : file serialize [] cut = []
  · rw [hfile]
    exact ⟨fun _ => rfl, fun h => absurd (by decide) h⟩
  · have hun : Unreadable deserialize (file serialize [] cut) := by
      cases cut with
      | none => exact absurd rfl hfile
      | some cut =>
          obtain ⟨r, n⟩ := cut
          have hwhole : ¬ (serialize r).length ≤ n := by
            intro hwhole
            simp [complete, hwhole] at hnone
          exact (hcut r n rfl).unreadable (List.take_append_drop n _).symm (by simpa using hwhole)
    have hlen := Chunks.length_split (d := bincodeStreamDelimiter) hfile
    have hnever := neverDecodes_iff_unreadable.mpr hun
    unfold readTrace
    rw [← List.append_nil (Chunks.split bincodeStreamDelimiter (file serialize [] cut))]
    constructor
    · intro hinner
      unfold innerDelimiters at hinner
      rw [readChunks_append (fun _ => rfl) hnever (by omega)]
      rfl
    · intro hinner
      unfold innerDelimiters at hinner
      have hstop : Stopped 0 (fun _ => none) (readChunks deserialize
          (Chunks.split bincodeStreamDelimiter (file serialize [] cut) ++ []) [] 0 0 _) :=
        readChunks_giveUp (fun _ => rfl) hnever (Nat.zero_le _) (by omega)
      obtain ⟨err, herr⟩ := hstop.2 rfl
      rw [herr]
      exact .error err

theorem readTrace_returnsWhen
    (hcut : ∀ r n, cut = some (r, n) → Lawful serialize deserialize r)
    (hrs : ∀ r ∈ rs, Lawful serialize deserialize r)
    (hmis : NoMisread serialize deserialize rs cut) :
    ReturnsWhen (Fits serialize deserialize rs cut) (complete serialize rs cut)
      (readTrace deserialize (file serialize rs cut)) := by
  by_cases hnone : complete serialize rs cut = []
  · have h := readTrace_empty hcut hnone
    rw [hnone]
    refine h.congr ⟨fun hinner => ?_, fun hfits => hfits.started hnone⟩
    obtain rfl := eq_nil_of_complete_eq_nil hnone
    exact ⟨inStep_nil.mpr (by simp [hnone]), fun _ => hinner⟩
  · have h := readChunks_file hcut [] hrs hmis (.inr hnone)
    refine h.congr ⟨fun hstep => ⟨hstep, fun h => absurd h hnone⟩, Fits.toInStep⟩

/-- A file in step is read back.  The other way round, a file that is read back was in step, where
no record is taken for another one. -/
theorem readTrace_iff (hcut : ∀ r n, cut = some (r, n) → Lawful serialize deserialize r)
    (hrs : ∀ r ∈ rs, Lawful serialize deserialize r) :
    (Fits serialize deserialize rs cut → Recovers serialize deserialize rs cut) ∧
      (NoMisread serialize deserialize rs cut →
        Recovers serialize deserialize rs cut → Fits serialize deserialize rs cut) := by
  constructor
  · intro hfits
    exact (readTrace_returnsWhen hcut hrs hfits.noMisread).1 hfits
  · intro hmis
    exact (readTrace_returnsWhen hcut hrs hmis).iff.mp

end Run

/-! ### Stored bytes -/

/-- The `k` bytes of a number, the lowest one first. -/
def littleEndian : Nat → Nat → List UInt8
  | 0, _ => []
  | k + 1, n => UInt8.ofNat n :: littleEndian k (n / 256)

/-- A port name and a `PreAllocatedStore` of bytes: the name with its length, the number of the
variant `Dynamic`, and the bytes with their length. -/
def serializeStore (msg : String × List UInt8) : List UInt8 :=
  littleEndian 8 msg.1.length ++ msg.1.toList.map (fun c => UInt8.ofNat c.toNat) ++
    littleEndian 4 0 ++ littleEndian 8 msg.2.length ++ msg.2

def readNat : Nat → List UInt8 → Option (Nat × List UInt8)
  | 0, buf => some (0, buf)
  | _ + 1, [] => none
  | k + 1, b :: buf => (readNat k buf).map fun (n, rest) => (b.toNat + 256 * n, rest)

def readBytes : Nat → List UInt8 → Option (List UInt8 × List UInt8)
  | 0, buf => some ([], buf)
  | _ + 1, [] => none
  | k + 1, b :: buf => (readBytes k buf).map fun (bs, rest) => (b :: bs, rest)

/-- The names are ASCII here. -/
def deserializeStore (buf : List UInt8) : Except Unit (String × List UInt8) :=
  let msg := do
    let (portLen, buf) ← readNat 8 buf
    let (port, buf) ← readBytes portLen buf
    guard (port.all (· < 128))
    let (variant, buf) ← readNat 4 buf
    guard (variant = 0)
    let (len, buf) ← readNat 8 buf
    let (data, _) ← readBytes len buf
    some (String.ofList (port.map fun b => Char.ofNat b.toNat), data)
  match msg with
  | some msg => .ok msg
  | none => .error ()

instance decidableFails (buf : List UInt8) : Decidable (Fails deserialize buf) :=
  match h : deserialize buf with
  | .ok r => .isFalse fun ⟨err, herr⟩ => by rw [h] at herr; cases herr
  | .error err => .isTrue ⟨err, h⟩

theorem Lawful.of_take {r : String × T} (hself : ∀ tail, deserialize (serialize r ++ tail) = .ok r)
    (htake : ∀ n < (serialize r).length, Fails deserialize ((serialize r).take n))
    (hne : serialize r ≠ []) : Lawful serialize deserialize r := by
  refine ⟨hself, ?_, hne⟩
  intro buf hbuf hneq
  have heq := List.prefix_iff_eq_take.mp hbuf
  have hlen : buf.length ≠ (serialize r).length := fun hlen => hneq (hbuf.eq_of_length hlen)
  rw [heq]
  exact htake _ (by have := hbuf.length_le; omega)

example : deserializeStore (serializeStore ("p", [7])) = .ok ("p", [7]) := by decide

/-! ### A newline at the end -/

theorem lawful_seven : Lawful serializeStore deserializeStore ("p", [7]) :=
  .of_take (fun _ => rfl) (by decide) (by decide)

theorem lawful_tenOne : Lawful serializeStore deserializeStore ("p", [10, 1]) :=
  .of_take (fun _ => rfl) (by decide) (by decide)

theorem lawful_ten : Lawful serializeStore deserializeStore ("p", [10]) :=
  .of_take (fun _ => rfl) (by decide) (by decide)

/-- Newlines inside the records, and the last one cut in its name. -/
theorem readTrace_iff_stores :
    readTrace deserializeStore (file serializeStore [("p", [7]), ("p", [10, 1])]
      (some (("p", [7]), 9))) = .ok (entriesOf [("p", [7]), ("p", [10, 1])]) := by
  have hcut : ∀ r n, some ((("p", [7]) : String × List UInt8), 9) = some (r, n) →
      Lawful serializeStore deserializeStore r := by
    rintro r n ⟨⟩
    exact lawful_seven
  have hrs : ∀ r ∈ [("p", [7]), ("p", [10, 1])], Lawful serializeStore deserializeStore r := by
    simp [lawful_seven, lawful_tenOne]
  refine (readTrace_iff hcut hrs).1 ⟨?_, by decide⟩
  refine inStep_cons.mpr ⟨by decide, fun h => absurd h (by decide), ?_⟩
  refine inStep_cons.mpr ⟨by decide, fun h => absurd h (by decide), ?_⟩
  exact inStep_nil.mpr (by decide)

/-- The value of the second record ends in a newline, and the third one is lost. -/
theorem newline_not_recovered :
    (∀ r ∈ [("p", [7]), ("p", [10]), ("p", [10, 1])],
        Lawful serializeStore deserializeStore r) ∧
      ¬ Recovers serializeStore deserializeStore
        [("p", [7]), ("p", [10]), ("p", [10, 1])] none := by
  refine ⟨by simp [lawful_seven, lawful_ten, lawful_tenOne], ?_⟩
  intro h
  have hp := congrArg (Except.map (· "p")) h
  have hread : (readTrace deserializeStore (file serializeStore
      [("p", [7]), ("p", [10]), ("p", [10, 1])] none)).map (· "p") = .ok (some [[7], [10]]) := rfl
  rw [hread] at hp
  exact absurd hp (by decide)

end Trace

end Ra2m
