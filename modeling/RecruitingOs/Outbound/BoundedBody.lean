import RecruitingOs.Outbound.SafeHttpClient

/-!
# Bounded bodies

`boundedResponse` of `src/infrastructure/outbound-http/bounded-response.ts` once more, with what its
callers see of its errors: whether they are the `ResponseSizeLimitError`.  The chunks are held while
they are read, and copied behind one another at the end.
-/

namespace RecruitingOs.BoundedBody

/-- What is thrown: a `ResponseSizeLimitError`, or another error. -/
inductive BodyError
  | sizeLimit
  | other (message : String)
deriving DecidableEq, Repr

/-- `error.message`. -/
def BodyError.message : BodyError → String
  | .sizeLimit => "Response exceeds size limit"
  | .other message => message

/-- A body, and what cancelling it answers. -/
structure ByteStream extends BodyStream where
  cancel : Except String Unit

/-- `Response`, as the transport gives it. -/
structure Response where
  status : ℕ
  statusText : String
  url : String
  headers : InsertionMap String String
  body : Option ByteStream

abbrev Chunk := List UInt8

/-- The error after cancelling; a body that cannot be cancelled has its own. -/
def exceeded (stream : Option ByteStream) : BodyError :=
  match stream.map ByteStream.cancel with
  | some (.error message) => .other message
  | _ => .sizeLimit

/-- The loop of `readLimited`, with the reads that are left before the abort: the chunks that are
held after each round, and how it ends. -/
def readSteps (stream : ByteStream) (maxBytes : ℕ) :
    (left index : ℕ) → (chunks : List Chunk) → (length : ℕ) →
      List (List Chunk) × Except BodyError (List Chunk × ℕ)
  | 0, _, _, _ => ([], .error (.other "Outbound request timed out"))
  | left + 1, index, chunks, length =>
      match stream.read index with
      | .done => ([], .ok (chunks, length))
      | .failed message => ([], .error (.other message))
      | .chunk value =>
          if length + value.length > maxBytes then ([], .error (exceeded (some stream)))
          else
            let rest := readSteps stream maxBytes left (index + 1) (chunks ++ [value])
              (length + value.length)
            ((chunks ++ [value]) :: rest.1, rest.2)

/-- `output.set(chunk, offset)`. -/
def setBytes (output chunk : Chunk) (offset : ℕ) : Except BodyError Chunk :=
  if output.length < offset + chunk.length then .error (.other "offset is out of bounds")
  else .ok (output.take offset ++ chunk ++ output.drop (offset + chunk.length))

/-- The second loop of `readLimited`. -/
def copyChunks : List Chunk → (output : Chunk) → (offset : ℕ) → Except BodyError Chunk
  | [], output, _ => .ok output
  | chunk :: chunks, output, offset =>
      (setBytes output chunk offset).bind fun output =>
        copyChunks chunks output (offset + chunk.length)

/-- `readLimited(stream, maxBytes)`. -/
def readLimited (stream : Option ByteStream) (maxBytes : ℕ) : Except BodyError Chunk :=
  match stream with
  | none => .ok []
  | some stream =>
      (readSteps stream maxBytes stream.abortedAt 0 [] 0).2.bind fun (chunks, length) =>
        copyChunks chunks (List.replicate length 0) 0

/-- The chunks that `readLimited` holds after each round. -/
def heldChunks (stream : Option ByteStream) (maxBytes : ℕ) : List (List Chunk) :=
  match stream with
  | none => []
  | some stream => (readSteps stream maxBytes stream.abortedAt 0 [] 0).1

/-- The declared length is finite, and exceeds the limit. -/
def declaresMore (number : String → Option ℚ) (headers : InsertionMap String String)
    (maxBytes : ℕ) : Bool :=
  ((headers.get? "content-length").elim (some 0) number).any fun declared =>
    (maxBytes : ℚ) < declared

/-- `boundedResponse(response, maxBytes, url)`; `number` is `Number` where it is finite. -/
def boundedResponse (number : String → Option ℚ) (response : Response) (maxBytes : ℕ)
    (url : Option String) : Except BodyError BoundedResponse :=
  if declaresMore number response.headers maxBytes then .error (exceeded response.body)
  else
    (readLimited response.body maxBytes).bind fun body =>
      if refusedStatus response.status body then .error (.other "Invalid response status")
      else .ok ⟨response.status, response.statusText, url.getD response.url, response.headers, body⟩

/-! ### The bytes that are held -/

variable {stream : ByteStream} {maxBytes left index length : ℕ} {chunks held : List Chunk}

/-- **Never more** than the limit is held. -/
theorem flatten_length_le (hlength : chunks.flatten.length = length) :
    ∀ held ∈ (readSteps stream maxBytes left index chunks length).1,
      held.flatten.length ≤ maxBytes := by
  induction left generalizing index chunks length with
  | zero => exact fun held h => absurd h List.not_mem_nil
  | succ left ih =>
      intro held h
      unfold readSteps at h
      split at h
      · cases h
      · cases h
      · rename_i value hvalue
        split at h
        · cases h
        · rename_i hle
          have hmore : (chunks ++ [value]).flatten.length = length + value.length := by
            rw [List.flatten_concat, List.length_append, hlength]
          rcases List.mem_cons.mp h with rfl | h
          · rw [hmore]
            omega
          · exact ih hmore held h

/-! ### Copying -/

theorem setBytes_replicate (copied chunk : Chunk) (n : ℕ) :
    setBytes (copied ++ List.replicate (chunk.length + n) 0) chunk copied.length =
      .ok (copied ++ chunk ++ List.replicate n 0) := by
  unfold setBytes
  rw [if_neg (by rw [List.length_append, List.length_replicate]; omega), List.take_left,
    List.drop_append, List.drop_eq_nil_of_le (Nat.le_add_right _ _), Nat.add_sub_cancel_left,
    List.drop_replicate, Nat.add_sub_cancel_left, List.nil_append]

/-- The chunks are copied behind one another. -/
theorem copyChunks_eq (chunks : List Chunk) (copied : Chunk) :
    copyChunks chunks (copied ++ List.replicate chunks.flatten.length 0) copied.length =
      .ok (copied ++ chunks.flatten) := by
  induction chunks generalizing copied with
  | nil =>
      rw [List.flatten_nil, List.length_nil, List.replicate_zero]
      rfl
  | cons chunk chunks ih =>
      have hrest := ih (copied ++ chunk)
      rw [List.length_append] at hrest
      rw [copyChunks, List.flatten_cons, List.length_append, setBytes_replicate, Except.bind, hrest,
        List.append_assoc]

/-! ### Sequences of chunks -/

/-- A body that gives chunks and then ends, before the abort; it can be cancelled. -/
def ofChunks (chunks : List Chunk) (spare : ℕ) : ByteStream where
  read index := (chunks[index]?).elim .done .chunk
  abortedAt := chunks.length + 1 + spare
  cancel := .ok ()

/-- Reading goes on while the chunks fit. -/
theorem readSteps_ofChunks (before chunks : List Chunk) (spare : ℕ)
    (hle : before.flatten.length ≤ maxBytes) :
    (readSteps (ofChunks (before ++ chunks) spare) maxBytes (chunks.length + 1 + spare)
        before.length before before.flatten.length).2 =
      if (before ++ chunks).flatten.length ≤ maxBytes then
        .ok (before ++ chunks, (before ++ chunks).flatten.length)
      else .error .sizeLimit := by
  induction chunks generalizing before with
  | nil =>
      have hread : (ofChunks (before ++ []) spare).read before.length = .done := by
        show ((before ++ [])[before.length]?).elim Read.done Read.chunk = _
        rw [List.append_nil, List.getElem?_eq_none (Nat.le_refl _)]
        rfl
      rw [List.length_nil, show 0 + 1 + spare = spare + 1 by omega, readSteps, hread,
        List.append_nil, if_pos hle]
  | cons value chunks ih =>
      have hread : (ofChunks (before ++ value :: chunks) spare).read before.length =
          .chunk value := by
        show ((before ++ value :: chunks)[before.length]?).elim Read.done Read.chunk = _
        rw [List.getElem?_append_right (Nat.le_refl _), Nat.sub_self, List.getElem?_cons_zero]
        rfl
      have hmore : (before ++ [value]).flatten.length = before.flatten.length + value.length := by
        rw [List.flatten_concat, List.length_append]
      have hsplit : before ++ value :: chunks = before ++ [value] ++ chunks :=
        List.append_cons before value chunks
      rw [List.length_cons, show chunks.length + 1 + 1 + spare = chunks.length + 1 + spare + 1 by
        omega, readSteps, hread]
      dsimp only
      by_cases hfits : before.flatten.length + value.length ≤ maxBytes
      · rw [if_neg (by omega), ← hmore, hsplit]
        have hrest := ih (before ++ [value]) (by omega)
        rw [List.length_append, List.length_singleton] at hrest
        exact hrest
      · have htotal : maxBytes < (before ++ value :: chunks).flatten.length := by
          rw [hsplit, List.flatten_append, List.length_append, hmore]
          omega
        rw [if_pos (by omega), if_neg (by omega)]
        rfl

theorem readLimited_ofChunks (chunks : List Chunk) (spare maxBytes : ℕ) :
    readLimited (some (ofChunks chunks spare)) maxBytes =
      if chunks.flatten.length ≤ maxBytes then .ok chunks.flatten else .error .sizeLimit := by
  have hsteps := @readSteps_ofChunks maxBytes [] chunks spare (Nat.zero_le _)
  have hcopied := copyChunks_eq chunks []
  rw [List.nil_append] at hsteps hcopied
  unfold readLimited
  dsimp only
  show (readSteps (ofChunks chunks spare) maxBytes (chunks.length + 1 + spare) 0 [] 0).2.bind _ = _
  rw [show (readSteps (ofChunks chunks spare) maxBytes (chunks.length + 1 + spare) 0 [] 0).2 = _
    from hsteps]
  split
  · exact hcopied
  · rfl

/-- A response of this status may carry a body. -/
def CarriesBody (status : ℕ) : Prop := 200 ≤ status ∧ status ≤ 599 ∧ status ∉ [204, 205, 304]

/-- A body gives the chunks and ends; without a body there are none. -/
def Delivers (body : Option ByteStream) (chunks : List Chunk) : Prop :=
  body = none ∧ chunks = [] ∨ ∃ spare, body = some (ofChunks chunks spare)

/-- **A bounded response** has exactly the bytes of the chunks if neither they nor the declared
length exceed the limit, and is refused otherwise; no more than the limit is held on the way. -/
theorem boundedResponse_exact (number : String → Option ℚ) (response : Response) (maxBytes : ℕ)
    (url : Option String) (chunks : List Chunk) (hbody : Delivers response.body chunks)
    (hstatus : CarriesBody response.status) :
    boundedResponse number response maxBytes url =
        (if declaresMore number response.headers maxBytes = false ∧
            chunks.flatten.length ≤ maxBytes then
          .ok ⟨response.status, response.statusText, url.getD response.url, response.headers,
            chunks.flatten⟩
        else .error .sizeLimit) ∧
      ∀ held ∈ heldChunks response.body maxBytes, held.flatten.length ≤ maxBytes := by
  obtain ⟨hlow, hhigh, hnull⟩ := hstatus
  have hread : readLimited response.body maxBytes =
      if chunks.flatten.length ≤ maxBytes then .ok chunks.flatten else .error .sizeLimit := by
    rcases hbody with ⟨hnone, rfl⟩ | ⟨spare, hsome⟩
    · rw [hnone]
      exact (if_pos (Nat.zero_le _)).symm
    · rw [hsome]
      exact readLimited_ofChunks chunks spare maxBytes
  have hcancel : exceeded response.body = .sizeLimit := by
    rcases hbody with ⟨hnone, -⟩ | ⟨spare, hsome⟩
    · rw [hnone]
      rfl
    · rw [hsome]
      rfl
  have hallowed : refusedStatus response.status chunks.flatten = false := by
    unfold refusedStatus
    refine decide_eq_false ?_
    rintro (h | h | h)
    · omega
    · omega
    · exact hnull h.1
  constructor
  · unfold boundedResponse
    rw [hread, hcancel]
    cases declaresMore number response.headers maxBytes with
    | true =>
        rw [if_pos rfl, if_neg fun h => Bool.noConfusion h.1]
    | false =>
        rw [if_neg (by decide)]
        by_cases hfits : chunks.flatten.length ≤ maxBytes
        · rw [if_pos hfits, if_pos ⟨rfl, hfits⟩, Except.bind, hallowed, if_neg (by decide)]
        · rw [if_neg hfits, if_neg fun h => hfits h.2]
          rfl
  · unfold heldChunks
    split
    · exact fun held h => absurd h List.not_mem_nil
    · exact flatten_length_le rfl

/-- Three chunks, one of them empty, that just fit. -/
theorem boundedResponse_exact_three :
    boundedResponse (fun _ => none)
        ⟨200, "OK", "https://club.example/", .empty, some (ofChunks [[1, 2], [], [3]] 0)⟩ 3 none =
      .ok ⟨200, "OK", "https://club.example/", .empty, [1, 2, 3]⟩ ∧
    ∀ held ∈ heldChunks (some (ofChunks [[1, 2], [], [3]] 0)) 3, held.flatten.length ≤ 3 :=
  boundedResponse_exact (fun _ => none)
    ⟨200, "OK", "https://club.example/", .empty, some (ofChunks [[1, 2], [], [3]] 0)⟩ 3 none
    [[1, 2], [], [3]] (.inr ⟨0, rfl⟩) ⟨by decide, by decide, by decide⟩

/-! ### The body that `SafeHttpClient` reads -/

/-- The response, without what cancelling answers. -/
def Response.toHttpResponse (response : Response) : HttpResponse :=
  ⟨response.status, response.statusText, response.url, response.headers,
    response.body.map ByteStream.toBodyStream⟩

theorem readSteps_spec (hcancel : stream.cancel = .ok ()) (hlength : chunks.flatten.length = length) :
    (∃ all, (readSteps stream maxBytes left index chunks length).2 = .ok (all, all.flatten.length) ∧
      readChunks stream.toBodyStream maxBytes left index chunks length = .ok all) ∨
    ∃ error, (readSteps stream maxBytes left index chunks length).2 = .error error ∧
      readChunks stream.toBodyStream maxBytes left index chunks length = .error error.message := by
  induction left generalizing index chunks length with
  | zero => exact .inr ⟨_, rfl, rfl⟩
  | succ left ih =>
      unfold readSteps readChunks
      cases hread : stream.read index with
      | done => exact .inl ⟨chunks, by rw [hlength], rfl⟩
      | failed message => exact .inr ⟨_, rfl, rfl⟩
      | chunk value =>
          dsimp only
          split
          · refine .inr ⟨.sizeLimit, ?_, rfl⟩
            rw [exceeded, Option.map_some, hcancel]
          · exact ih (by rw [List.flatten_concat, List.length_append, hlength])

/-- **`SafeHttpClient`** reads the same, and sees of an error its message only. -/
theorem boundedResponse_toHttpResponse (platform : Platform) (response : Response) (maxBytes : ℕ)
    (url : Option String) (hcancel : ∀ stream, response.body = some stream → stream.cancel = .ok ()) :
    RecruitingOs.boundedResponse platform response.toHttpResponse maxBytes url =
      (boundedResponse platform.number response maxBytes url).mapError BodyError.message := by
  have hexceeded : exceeded response.body = .sizeLimit := by
    cases hbody : response.body with
    | none => rfl
    | some stream => rw [exceeded, Option.map_some, hcancel stream hbody]
  have hread : RecruitingOs.readLimited (response.body.map ByteStream.toBodyStream) maxBytes =
      (readLimited response.body maxBytes).mapError BodyError.message := by
    cases hbody : response.body with
    | none => rfl
    | some stream =>
        show (readChunks stream.toBodyStream maxBytes stream.abortedAt 0 [] 0).map List.flatten =
          ((readSteps stream maxBytes stream.abortedAt 0 [] 0).2.bind fun (chunks, length) =>
            copyChunks chunks (List.replicate length 0) 0).mapError BodyError.message
        obtain ⟨all, hsteps, hchunks⟩ | ⟨error, hsteps, hchunks⟩ :=
          @readSteps_spec stream maxBytes stream.abortedAt 0 0 [] (hcancel stream hbody) rfl
        · have hcopied := copyChunks_eq all []
          rw [List.nil_append] at hcopied
          rw [hsteps, hchunks]
          exact (congrArg (Except.mapError BodyError.message) hcopied).symm
        · rw [hsteps, hchunks]
          rfl
  unfold RecruitingOs.boundedResponse boundedResponse
  rw [hexceeded]
  show (if declaresMore platform.number response.headers maxBytes then _ else _) = _
  split
  · rfl
  · rw [Response.toHttpResponse, hread]
    cases readLimited response.body maxBytes with
    | error error => rfl
    | ok body =>
        show (if refusedStatus response.status body then _ else _) =
          (if refusedStatus response.status body then _ else _ : Except BodyError _).mapError _
        split
        · rfl
        · rfl

end RecruitingOs.BoundedBody
