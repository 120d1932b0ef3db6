import Milhouse.Http.Client
import Milhouse.Lib.Text

/-!
# Milhouse — the attempts of the HTTP client

What one call of `BoundedHttpClient.get` can end in, and how often it tries, in any `Environment`.
The URL is any Python text. Each stage of an attempt may raise what it likes: `httpx` may refuse the
request, the sending may raise before or over a response, the body may fault or overflow while it is
read, and closing the response or leaving the client may raise in its turn.

* **`getLoop_eq_tracedLoop`** — the loop of `get`, with what each attempt did written down;
* **`tracedLoop_length`**, **`tracedLoop_size`** — it is bounded and so is what it counts, whatever
  happens;
* **`sum_pieces`** — what `iter_raw` yields of a body: all of it, or the full pieces before a fault;
* **`exchange_result_cases`** — the four ways in which a request that is handed over can end;
* **`tracedLoop_closed_iff`** — the loop is closed exactly where nothing escapes an attempt it
  reaches and no answered attempt ends in a transport fault while a retry is left;
* **`getText_closed_iff`** — the same of `get`, for every text.
-/

namespace Milhouse.Http

/-! ## Any text -/

/-- The URL of a Python text, where `encode("utf-8")` does not raise. -/
def encodable? (url : List Text.CodePoint) : Option String := (Text.scalars url).map String.ofList

/-! ## The loop, attempt by attempt -/

/-- What one attempt did. -/
structure Attempt where
  number : Nat
  sent : List Sent
  /-- The transport returned a response. -/
  responded : Bool
  /-- Its probe raised what the loop retries. -/
  retriable : Bool
  deriving DecidableEq, Repr

/-- The transport returned a response. -/
def Exchange.answered (exchange : Exchange) : Bool :=
  match exchange.delivery with
  | .answered _ _ => true
  | .failed _ => false

section Loop

variable (ip : IpModule) (client : BoundedHttpClient) (env : Environment) (target : ParsedTarget)

/-- Whether a request that was handed over got a response. -/
def responded (attempt : Nat) (sent : List Sent) : Bool :=
  !sent.isEmpty && (env.transport attempt).answered

/-- Whether the `except` clause of the loop goes on. -/
def retries : Except Raised HttpProbeResult → Bool
  | .ok _ => false
  | .error e => isRetried e

/-- One round of the loop. -/
def tryOnce (attempt : Nat) : Except Raised HttpProbeResult × Attempt :=
  match resolve env attempt target.host with
  | .error e => (.error e, ⟨attempt, [], false, false⟩)
  | .ok addresses =>
      match selectPinnedAddress ip addresses with
      | .error e => (.error (.client e), ⟨attempt, [], false, false⟩)
      | .ok pinned =>
          let (result, sent) := probe ip client env attempt target pinned
          (result, ⟨attempt, sent, responded env attempt sent, retries result⟩)

/-- The loop of `get`, with what each attempt did. -/
def tracedLoop : Nat → Nat → Except Raised HttpProbeResult × List Attempt
  | attempt, 0 => ((tryOnce ip client env target attempt).1,
      [(tryOnce ip client env target attempt).2])
  | attempt, remaining + 1 =>
      let (result, made) := tryOnce ip client env target attempt
      if made.retriable then
        let (result, more) := tracedLoop (attempt + 1) remaining
        (result, made :: more)
      else (result, [made])
  termination_by structural _ remaining => remaining

/-- `BoundedHttpClient.get` of any text. A surrogate raises when the URL is encoded, after the
checks of the other arguments. -/
def BoundedHttpClient.getText (urllib : UrlModule) (url : List Text.CodePoint) (timeoutSeconds : Int)
    (verifyTls : Bool) : Except Raised HttpProbeResult × List Attempt :=
  if !verifyTls then
    (.error (.client ⟨"MH_HTTP_TLS_REQUIRED", "TLS verification cannot be disabled"⟩), [])
  else if !(1 ≤ timeoutSeconds && timeoutSeconds ≤ 300) then
    (.error (.client ⟨"MH_HTTP_TIMEOUT_BUDGET",
      "a bounded positive request timeout is required"⟩), [])
  else match encodable? url with
    | none => (.error .other, [])
    | some url =>
        match parseTarget urllib url with
        | .error e => (.error (.client e), [])
        | .ok target => tracedLoop ip client env target 1 client.maxRetries

/-- **The loop of `get`** is the traced one. -/
theorem getLoop_eq_tracedLoop (attempt remaining : Nat) :
    getLoop ip client env target attempt remaining =
      ((tracedLoop ip client env target attempt remaining).1,
        (tracedLoop ip client env target attempt remaining).2.flatMap (·.sent)) := by
  induction remaining generalizing attempt with
  | zero =>
      unfold getLoop tracedLoop tryOnce
      cases hresolve : resolve env attempt target.host with
      | error e => simp
      | ok addresses =>
          cases hpinned : selectPinnedAddress ip addresses with
          | error e => simp [hpinned]
          | ok pinned =>
              cases hprobe : probe ip client env attempt target pinned with
              | mk result sent => cases result <;> simp [hpinned, hprobe]
  | succ remaining ih =>
      unfold getLoop tracedLoop tryOnce
      cases hresolve : resolve env attempt target.host with
      | error e => simp
      | ok addresses =>
          cases hpinned : selectPinnedAddress ip addresses with
          | error e => simp [hpinned]
          | ok pinned =>
              cases hprobe : probe ip client env attempt target pinned with
              | mk result sent =>
                  cases result with
                  | ok r => simp [hpinned, hprobe, retries]
                  | error e =>
                      cases hretried : isRetried e <;> simp [hpinned, hprobe, retries, hretried, ih]

/-- On a URL that can be encoded it is `get`. -/
theorem getText_eq_get {urllib : UrlModule} {url : List Text.CodePoint} {text : String}
    (h : encodable? url = some text) (timeoutSeconds : Int) (verifyTls : Bool) :
    client.get ip env urllib text timeoutSeconds verifyTls =
      ((client.getText ip env urllib url timeoutSeconds verifyTls).1,
        (client.getText ip env urllib url timeoutSeconds verifyTls).2.flatMap (·.sent)) := by
  unfold BoundedHttpClient.get BoundedHttpClient.getText
  rw [h]
  split
  · rfl
  · split
    · rfl
    · cases htarget : parseTarget urllib text with
      | error e => simp [htarget]
      | ok target =>
          simp only [htarget]
          exact getLoop_eq_tracedLoop ip client env target 1 client.maxRetries

end Loop

/-! ## What a body comes to -/

/-- **The chunker** cuts what it is given into full pieces and holds the rest. -/
theorem decodeChunks_eq {held : Nat} (hheld : held < readChunkBytes) (chunks : List Nat) :
    decodeChunks held chunks =
      (List.replicate ((held + chunks.sum) / readChunkBytes) readChunkBytes,
        (held + chunks.sum) % readChunkBytes) := by
  induction chunks generalizing held with
  | nil =>
      rw [decodeChunks, List.sum_nil, Nat.add_zero, Nat.div_eq_of_lt hheld, Nat.mod_eq_of_lt hheld]
      rfl
  | cons chunk chunks ih =>
      -- the pieces of this chunk, and those of the rest from what it leaves in the buffer
      have hleft : (held + chunk) % readChunkBytes < readChunkBytes := Nat.mod_lt _ (by decide)
      have hpieces : (held + chunk) / readChunkBytes +
          ((held + chunk) % readChunkBytes + chunks.sum) / readChunkBytes =
            (held + (chunk + chunks.sum)) / readChunkBytes := by
        unfold readChunkBytes
        omega
      have hrest : ((held + chunk) % readChunkBytes + chunks.sum) % readChunkBytes =
          (held + (chunk + chunks.sum)) % readChunkBytes := by
        unfold readChunkBytes
        omega
      rw [decodeChunks, ih hleft, List.sum_cons]
      simp only [List.replicate_append_replicate, hpieces, hrest]

/-- How many bytes of a body are counted if none is too many: of a body that faults, those in full
pieces. -/
def Response.counted (response : Response) : Nat :=
  match response.ending with
  | none => response.chunks.sum
  | some _ => response.chunks.sum / readChunkBytes * readChunkBytes

/-- **What `iter_raw` yields** are the counted bytes. -/
theorem sum_pieces (response : Response) : response.pieces.sum = response.counted := by
  have hsplit : response.chunks.sum / readChunkBytes * readChunkBytes +
      response.chunks.sum % readChunkBytes = response.chunks.sum := by
    unfold readChunkBytes
    omega
  unfold Response.pieces Response.counted
  rw [decodeChunks_eq (by decide), Nat.zero_add]
  cases response.ending with
  | some fault => simp [List.sum_replicate_nat]
  | none =>
      by_cases hleft : response.chunks.sum % readChunkBytes = 0
      · simp only [hleft, ne_eq, not_true_eq_false, and_false, if_false, List.sum_replicate_nat]
        omega
      · simp only [hleft, ne_eq, not_false_eq_true, and_self, if_true, List.sum_append,
          List.sum_replicate_nat, List.sum_singleton]
        exact hsplit

section Body

variable (client : BoundedHttpClient) (response : Response)

/-- A body that is within the ceiling, as far as it is declared and counted. -/
def WithinCeiling : Prop :=
  (∀ bytes, response.declared = some (some bytes) → bytes ≤ client.maxResponseBytes) ∧
    response.counted ≤ client.maxResponseBytes

/-- The reading ends in a transport fault: of the body before its end, and the response then closes,
or of the closing behind its end. -/
def FaultsWhileRead : Prop :=
  WithinCeiling client response ∧
    ((response.ending = some .httpError ∧ response.closing = none) ∨
      (response.ending = none ∧ response.closing = some .httpError))

/-- The reading ends in an exception of another kind: of the body, of the closing behind its end, or
of any closing that takes the place of what was raised. -/
def EscapesWhileRead : Prop :=
  (WithinCeiling client response ∧ response.ending = some .other) ∨
    (WithinCeiling client response ∧ response.ending = none ∧ response.closing = some .other) ∨
    (¬ (WithinCeiling client response ∧ response.ending = none) ∧ response.closing ≠ none)

end Body

section Reading

variable {client : BoundedHttpClient} {response : Response}

/-- Pieces that fit below the ceiling are all counted. -/
theorem drainChunks_of_le {total : Nat} {pieces : List Nat}
    (h : total + pieces.sum ≤ client.maxResponseBytes) :
    drainChunks client response total pieces =
      drainChunks client response (total + pieces.sum) [] := by
  induction pieces generalizing total with
  | nil => rfl
  | cons piece pieces ih =>
      rw [List.sum_cons] at h ⊢
      calc drainChunks client response total (piece :: pieces)
          = drainChunks client response (total + piece) pieces := by
            rw [drainChunks, if_neg (by omega)]
        _ = drainChunks client response (total + (piece + pieces.sum)) [] := by
            rw [ih (by omega), Nat.add_assoc]

/-- Pieces that exceed the ceiling end in the failure of an oversized body. -/
theorem drainChunks_of_lt {total : Nat} {pieces : List Nat}
    (htotal : total ≤ client.maxResponseBytes)
    (h : client.maxResponseBytes < total + pieces.sum) :
    drainChunks client response total pieces = (.error httpBodyTooLarge, false) := by
  induction pieces generalizing total with
  | nil =>
      rw [List.sum_nil] at h
      omega
  | cons piece pieces ih =>
      rw [List.sum_cons] at h
      rw [drainChunks]
      split
      · rfl
      · exact ih (by omega) (by omega)

/-- **Draining a body** within the ceiling ends as the transport ends it. -/
theorem drainCapped_of_within (h : WithinCeiling client response) :
    drainCapped client response = drainChunks client response response.counted [] := by
  have hchunks : drainChunks client response 0 response.pieces =
      drainChunks client response response.counted [] := by
    rw [drainChunks_of_le (by rw [sum_pieces, Nat.zero_add]; exact h.2), Nat.zero_add, sum_pieces]
  unfold drainCapped
  rw [hchunks]
  cases hdeclared : response.declared with
  | none => rfl
  | some bytes =>
      cases bytes with
      | none => rfl
      | some bytes =>
          have hbytes := h.1 bytes hdeclared
          simp only [decide_eq_false (Int.not_lt.mpr hbytes), Bool.false_eq_true, if_false]

/-- **Draining any other** is cut short, and leaves the response open. -/
theorem drainCapped_of_not_within (h : ¬ WithinCeiling client response) :
    drainCapped client response = (.error httpBodyTooLarge, false) := by
  unfold drainCapped
  by_cases hcounted : response.counted ≤ client.maxResponseBytes
  · have hdeclared : ∃ bytes, response.declared = some (some bytes) ∧
        (client.maxResponseBytes : Int) < bytes := by
      by_contra hnone
      exact h ⟨fun bytes hbytes => Int.not_lt.mp fun hlt => hnone ⟨bytes, hbytes, hlt⟩, hcounted⟩
    obtain ⟨bytes, hbytes, hlt⟩ := hdeclared
    simp only [hbytes, decide_eq_true hlt, if_true]
  · rw [drainChunks_of_lt (Nat.zero_le _) (by rw [sum_pieces]; omega), ite_self]

/-- **Reading a body** faults, escapes, is refused by a fixed error that is not retried, or counts a
size within the ceiling. -/
theorem readBody_cases (client : BoundedHttpClient) (response : Response) :
    (FaultsWhileRead client response ∧ readBody client response = .error httpRequestFailed) ∨
      (EscapesWhileRead client response ∧ readBody client response = .error .other) ∨
      (readBody client response = .error httpTimeout) ∨
      (readBody client response = .error httpBodyTooLarge) ∨
      (∃ size, readBody client response = .ok size ∧ size ≤ client.maxResponseBytes) := by
  unfold readBody
  by_cases hwithin : WithinCeiling client response
  · rw [drainCapped_of_within hwithin, drainChunks]
    cases hending : response.ending with
    | none =>
        -- the closing is `iter_raw`'s, within the `try`
        cases hclosing : response.closing with
        | none => exact Or.inr (Or.inr (Or.inr (Or.inr ⟨_, rfl, hwithin.2⟩)))
        | some fault =>
            cases fault with
            | timeout => exact Or.inr (Or.inr (Or.inl rfl))
            | httpError => exact Or.inl ⟨⟨hwithin, Or.inr ⟨hending, hclosing⟩⟩, rfl⟩
            | other => exact Or.inr (Or.inl ⟨Or.inr (Or.inl ⟨hwithin, hending, hclosing⟩), rfl⟩)
    | some fault =>
        cases hclosing : response.closing with
        | some closing =>
            refine Or.inr (Or.inl ⟨Or.inr (Or.inr ⟨fun h => ?_, ?_⟩), rfl⟩)
            · rw [hending] at h
              cases h.2
            · rw [hclosing]
              exact Option.some_ne_none _
        | none =>
            cases fault with
            | timeout => exact Or.inr (Or.inr (Or.inl rfl))
            | httpError => exact Or.inl ⟨⟨hwithin, Or.inl ⟨hending, hclosing⟩⟩, rfl⟩
            | other => exact Or.inr (Or.inl ⟨Or.inl ⟨hwithin, hending⟩, rfl⟩)
  · rw [drainCapped_of_not_within hwithin]
    cases hclosing : response.closing with
    | none => exact Or.inr (Or.inr (Or.inr (Or.inl rfl)))
    | some closing =>
        refine Or.inr (Or.inl ⟨Or.inr (Or.inr ⟨fun h => hwithin h.1, ?_⟩), rfl⟩)
        rw [hclosing]
        exact Option.some_ne_none _

/-- A reading that faults raises what is retried. -/
theorem readBody_of_faults (h : FaultsWhileRead client response) :
    readBody client response = .error httpRequestFailed := by
  obtain ⟨hwithin, ⟨hending, hclosing⟩ | ⟨hending, hclosing⟩⟩ := h
  all_goals
    unfold readBody
    rw [drainCapped_of_within hwithin, drainChunks, hending, hclosing]
    rfl

/-- A reading that escapes raises nothing fixed. -/
theorem readBody_of_escapes (h : EscapesWhileRead client response) :
    readBody client response = .error .other := by
  unfold readBody
  rcases h with ⟨hwithin, hending⟩ | ⟨hwithin, hending, hclosing⟩ | ⟨hstopped, hclosing⟩
  · rw [drainCapped_of_within hwithin, drainChunks, hending]
    cases response.closing <;> rfl
  · rw [drainCapped_of_within hwithin, drainChunks, hending, hclosing]
    rfl
  · obtain ⟨fault, hfault⟩ := Option.ne_none_iff_exists'.mp hclosing
    by_cases hwithin : WithinCeiling client response
    · obtain ⟨ending, hending⟩ := Option.ne_none_iff_exists'.mp fun h => hstopped ⟨hwithin, h⟩
      rw [drainCapped_of_within hwithin, drainChunks, hending, hfault]
      rfl
    · rw [drainCapped_of_not_within hwithin, hfault]
      rfl

end Reading

/-! ## What an exchange comes to -/

/-- The transport faults before there is a response. -/
def Exchange.ConnectFaults (exchange : Exchange) : Prop :=
  exchange.exits = true ∧ exchange.delivery = .failed .httpError

/-- There is a response, and the exchange ends in a transport fault: `send` raises one over the
response, or the reading does. -/
def Exchange.BreaksOff (client : BoundedHttpClient) (exchange : Exchange) : Prop :=
  exchange.exits = true ∧ ∃ response,
    exchange.delivery = .answered response (some .httpError) ∨
      (exchange.delivery = .answered response none ∧ FaultsWhileRead client response)

/-- An exception that is no `HttpClientError` leaves the exchange: when the client is left, from
`send` before or over a response, or from the reading. -/
def Exchange.Escapes (client : BoundedHttpClient) (exchange : Exchange) : Prop :=
  exchange.exits = false ∨ exchange.delivery = .failed .other ∨ ∃ response,
    exchange.delivery = .answered response (some .other) ∨
      (exchange.delivery = .answered response none ∧ EscapesWhileRead client response)


section Exchanges

variable {client : BoundedHttpClient} {exchange : Exchange}

/-- A response that `send` returns is read. -/
theorem Exchange.result_of_answered {response : Response} (hexits : exchange.exits = true)
    (hdelivery : exchange.delivery = .answered response none) :
    exchange.result client = (readBody client response).map fun size => ⟨response.status,
      ((exchange.finishedNs - exchange.startedNs) / 1000000).toNat, size⟩ := by
  unfold Exchange.result
  rw [hexits, hdelivery, if_pos rfl]

/-- A connection that fails gives the request failure without an answer. -/
theorem Exchange.ConnectFaults.result (h : exchange.ConnectFaults) :
    exchange.result client = .error httpRequestFailed ∧ exchange.answered = false := by
  obtain ⟨hexits, hdelivery⟩ := h
  unfold Exchange.result Exchange.answered
  rw [hexits, hdelivery]
  exact ⟨rfl, rfl⟩

/-- An answer that breaks off gives the same failure, although it was answered. -/
theorem Exchange.BreaksOff.result (h : exchange.BreaksOff client) :
    exchange.result client = .error httpRequestFailed ∧ exchange.answered = true := by
  obtain ⟨hexits, response, hdelivery | ⟨hdelivery, hfaults⟩⟩ := h
  · unfold Exchange.result Exchange.answered
    rw [hexits, hdelivery]
    exact ⟨rfl, rfl⟩
  · rw [Exchange.result_of_answered hexits hdelivery, readBody_of_faults hfaults]
    unfold Exchange.answered
    rw [hdelivery]
    exact ⟨rfl, rfl⟩

/-- An exception the client does not translate leaves it as it is. -/
theorem Exchange.Escapes.result (h : exchange.Escapes client) :
    exchange.result client = .error .other := by
  unfold Exchange.result
  rcases h with hexits | hdelivery | ⟨response, hdelivery | ⟨hdelivery, hescapes⟩⟩
  · rw [hexits]
    rfl
  · rw [hdelivery]
    exact ite_self _
  · rw [hdelivery]
    exact ite_self _
  · rw [hdelivery]
    simp only [readBody_of_escapes hescapes]
    exact ite_self _

/-- An exchange that is neither retried nor escaped from. -/
def Exchange.Settles (client : BoundedHttpClient) (exchange : Exchange) : Prop :=
  (∃ e, exchange.result client = .error (.client e) ∧ isRetried (.client e) = false) ∨
    ∃ r, exchange.result client = .ok r ∧ r.responseBytes ≤ client.maxResponseBytes ∧
      exchange.answered = true

/-- **An exchange** faults while connecting, breaks off, escapes or settles. -/
theorem exchange_result_cases (client : BoundedHttpClient) (exchange : Exchange) :
    exchange.ConnectFaults ∨ exchange.BreaksOff client ∨ exchange.Escapes client ∨
      exchange.Settles client := by
  -- An error of the client that is not retried settles the exchange.
  have hfixed : ∀ e, exchange.result client = .error (.client e) →
      isRetried (.client e) = false → exchange.Settles client :=
    fun e h hretried => Or.inl ⟨e, h, hretried⟩
  -- The cases follow the exchange: the request, the headers, and then the body.
  cases hexits : exchange.exits with
  | false => exact Or.inr (Or.inr (Or.inl (Or.inl hexits)))
  | true =>
      cases hdelivery : exchange.delivery with
      | failed fault =>
          have hresult : exchange.result client = .error fault.raised := by
            unfold Exchange.result
            rw [hexits, hdelivery, if_pos rfl]
          cases fault with
          | timeout => exact Or.inr (Or.inr (Or.inr (hfixed _ hresult (by decide))))
          | httpError => exact Or.inl ⟨hexits, hdelivery⟩
          | other => exact Or.inr (Or.inr (Or.inl (Or.inr (Or.inl hdelivery))))
      | answered response refused =>
          cases refused with
          | some fault =>
              have hresult : exchange.result client = .error fault.raised := by
                unfold Exchange.result
                rw [hexits, hdelivery, if_pos rfl]
              cases fault with
              | timeout => exact Or.inr (Or.inr (Or.inr (hfixed _ hresult (by decide))))
              | httpError => exact Or.inr (Or.inl ⟨hexits, response, Or.inl hdelivery⟩)
              | other =>
                  exact Or.inr (Or.inr (Or.inl (Or.inr (Or.inr ⟨response, Or.inl hdelivery⟩))))
          | none =>
              have hresult := @Exchange.result_of_answered client exchange _ hexits hdelivery
              -- The body breaks off, escapes, is too late or too large, or it is read whole.
              rcases readBody_cases client response with
                ⟨hfaults, -⟩ | ⟨hescapes, -⟩ | htimeout | hlarge | ⟨size, hsize, hle⟩
              · exact Or.inr (Or.inl ⟨hexits, response, Or.inr ⟨hdelivery, hfaults⟩⟩)
              · exact Or.inr (Or.inr (Or.inl (Or.inr (Or.inr
                  ⟨response, Or.inr ⟨hdelivery, hescapes⟩⟩))))
              · rw [htimeout] at hresult
                exact Or.inr (Or.inr (Or.inr (hfixed _ hresult (by decide))))
              · rw [hlarge] at hresult
                exact Or.inr (Or.inr (Or.inr (hfixed _ hresult (by decide))))
              · rw [hsize] at hresult
                refine Or.inr (Or.inr (Or.inr (Or.inr ⟨_, hresult, hle, ?_⟩)))
                unfold Exchange.answered
                rw [hdelivery]

end Exchanges

/-! ## What an attempt comes to -/

section Outcome

variable (ip : IpModule) (client : BoundedHttpClient) (env : Environment) (target : ParsedTarget)

/-- The attempt resolves to a public answer, whose first address is pinned. -/
def Pins (attempt : Nat) (pinned : String) : Prop :=
  ∃ addresses, env.resolver attempt target.host = .ok addresses ∧
    selectPinnedAddress ip addresses = .ok pinned

/-- The pinned literal parses again, and `httpx` takes the request and opens a client. -/
def Builds (attempt : Nat) (pinned : String) : Prop :=
  (ip.ipAddress pinned).isSome ∧ (env.transport attempt).opens = true

/-- The attempt hands its request over. -/
def HandsOver (attempt : Nat) : Prop :=
  ∃ pinned, Pins ip env target attempt pinned ∧ Builds ip env attempt pinned

/-- The attempt is sent, and faults before it is answered. -/
def ConnectFaults (attempt : Nat) : Prop :=
  HandsOver ip env target attempt ∧ (env.transport attempt).ConnectFaults

/-- The attempt is answered, and ends in a transport fault. -/
def BreaksOff (attempt : Nat) : Prop :=
  HandsOver ip env target attempt ∧ (env.transport attempt).BreaksOff client

/-- An exception that is no `HttpClientError` leaves the attempt: a request is not built for the
address it pins, or the exchange lets one through. -/
def Escapes (attempt : Nat) : Prop :=
  (∃ pinned, Pins ip env target attempt pinned ∧ ¬ Builds ip env attempt pinned) ∨
    (HandsOver ip env target attempt ∧ (env.transport attempt).Escapes client)

/-- How far an attempt gets: what it ends in, whether it was answered and whether it is retried. -/
inductive Tried (attempt : Nat) : Except Raised HttpProbeResult → Bool → Bool → Prop where
  | refused (e : HttpClientError) (h : ∀ pinned, ¬ Pins ip env target attempt pinned) :
      Tried attempt (.error (.client e)) false false
  | unbuilt (pinned : String) (hpins : Pins ip env target attempt pinned)
      (h : ¬ Builds ip env attempt pinned) : Tried attempt (.error .other) false false
  | handed (h : HandsOver ip env target attempt) :
      Tried attempt ((env.transport attempt).result client) (env.transport attempt).answered
        (retries ((env.transport attempt).result client))

end Outcome

section Tried

variable {ip : IpModule} {client : BoundedHttpClient} {env : Environment} {target : ParsedTarget}
  {attempt : Nat}

/-- An attempt is pinned to one address at most. -/
theorem Pins.inj {a b : String} (ha : Pins ip env target attempt a)
    (hb : Pins ip env target attempt b) : a = b := by
  obtain ⟨addresses, hresolver, hselect⟩ := ha
  obtain ⟨addresses', hresolver', hselect'⟩ := hb
  obtain rfl := Except.ok.inj (hresolver.symm.trans hresolver')
  exact Except.ok.inj (hselect.symm.trans hselect')

/-- An attempt that hands a request over built it for the address it pins. -/
theorem HandsOver.builds (h : HandsOver ip env target attempt) {pinned : String}
    (hpins : Pins ip env target attempt pinned) : Builds ip env attempt pinned := by
  obtain ⟨pinned', hpins', hbuilds⟩ := h
  exact (hpins'.inj hpins) ▸ hbuilds

theorem pins_of_resolve {addresses : List String} {pinned : String}
    (h : resolve env attempt target.host = .ok addresses)
    (hpinned : selectPinnedAddress ip addresses = .ok pinned) : Pins ip env target attempt pinned :=
  ⟨addresses, resolve_ok h, hpinned⟩

/-- A request that was built is sent once, over the transport of its attempt. -/
theorem probe_built {pinned : String} {request : Request}
    (hbuilt : buildPinnedRequest ip target pinned = some request)
    (hopens : (env.transport attempt).opens = true) :
    probe ip client env attempt target pinned =
      ((env.transport attempt).result client, [⟨attempt, request⟩]) := by
  unfold probe
  rw [hbuilt]
  simp only [hopens, Bool.not_true, Bool.false_eq_true, if_false]

/-- **An attempt** is refused, builds no request or hands one over. -/
theorem tried : Tried ip client env target attempt (tryOnce ip client env target attempt).1
    (tryOnce ip client env target attempt).2.responded
    (tryOnce ip client env target attempt).2.retriable := by
  unfold tryOnce
  -- The cases follow the attempt: it resolves, selects an address, builds the request and opens
  -- the transport, and only then is anything handed over.
  cases hresolve : resolve env attempt target.host with
  | error e =>
      obtain ⟨e, rfl⟩ : ∃ error, e = .client error := by
        unfold resolve at hresolve
        split at hresolve
        · cases hresolve
        · exact ⟨_, (Except.error.inj hresolve).symm⟩
        · exact ⟨_, (Except.error.inj hresolve).symm⟩
      refine .refused e fun pinned hpins => ?_
      obtain ⟨addresses, hresolver, -⟩ := hpins
      unfold resolve at hresolve
      rw [hresolver] at hresolve
      cases hresolve
  | ok addresses =>
      cases hselect : selectPinnedAddress ip addresses with
      | error e =>
          simp only [hselect]
          refine .refused e fun pinned hpins => ?_
          obtain ⟨addresses', hresolver, hselect'⟩ := hpins
          obtain rfl := Except.ok.inj ((resolve_ok hresolve).symm.trans hresolver)
          rw [hselect] at hselect'
          cases hselect'
      | ok pinned =>
          have hpins := pins_of_resolve hresolve hselect
          simp only [hselect]
          cases hbuilt : buildPinnedRequest ip target pinned with
          -- No request can be built for the pinned address, so the attempt is not one that builds.
          | none =>
              have hnone := Option.map_eq_none_iff.mp hbuilt
              unfold probe
              rw [hbuilt]
              refine .unbuilt pinned hpins fun hbuilds => ?_
              rw [Builds, hnone] at hbuilds
              cases hbuilds.1
          | some request =>
              have hsome : (ip.ipAddress pinned).isSome := by
                have hmap := congrArg Option.isSome hbuilt
                rwa [buildPinnedRequest, Option.isSome_map] at hmap
              cases hopens : (env.transport attempt).opens with
              | false =>
                  unfold probe
                  rw [hbuilt]
                  simp only [hopens]
                  refine .unbuilt pinned hpins fun hbuilds => ?_
                  rw [Builds, hopens] at hbuilds
                  cases hbuilds.2
              | true =>
                  rw [probe_built hbuilt hopens]
                  exact .handed ⟨pinned, hpins, hsome, hopens⟩

variable {result : Except Raised HttpProbeResult} {answered retried : Bool}

/-- An attempt raises nothing else exactly where nothing escapes it. -/
theorem Tried.fixed_iff (h : Tried ip client env target attempt result answered retried) :
    (∀ e, result = .error e → ∃ error, e = .client error) ↔
      ¬ Escapes ip client env target attempt := by
  cases h with
  | refused e h =>
      refine ⟨fun _ hescapes => ?_, fun _ _ heq => ⟨e, (Except.error.inj heq).symm⟩⟩
      rcases hescapes with ⟨pinned, hpins, -⟩ | ⟨⟨pinned, hpins, -⟩, -⟩
      · exact h pinned hpins
      · exact h pinned hpins
  | unbuilt pinned hpins h =>
      constructor
      · intro hfixed
        obtain ⟨error, heq⟩ := hfixed _ rfl
        cases heq
      · intro hescapes
        exact absurd (Or.inl ⟨pinned, hpins, h⟩) hescapes
  | handed h =>
      constructor
      · rintro hfixed (⟨pinned, hpins, hunbuilt⟩ | ⟨-, hescapes⟩)
        · exact hunbuilt (h.builds hpins)
        · obtain ⟨error, heq⟩ := hfixed _ hescapes.result
          cases heq
      · intro hnone e heq
        rcases exchange_result_cases client (env.transport attempt) with
          hfault | hbroken | hescapes | ⟨error, herror, -⟩ | ⟨r, hr, -⟩
        · exact ⟨_, Except.error.inj (heq.symm.trans hfault.result.1)⟩
        · exact ⟨_, Except.error.inj (heq.symm.trans hbroken.result.1)⟩
        · exact absurd (Or.inr ⟨h, hescapes⟩) hnone
        · exact ⟨error, Except.error.inj (heq.symm.trans herror)⟩
        · rw [heq] at hr
          cases hr

theorem ConnectFaults.not_breaksOff (h : ConnectFaults ip env target attempt) :
    ¬ BreaksOff ip client env target attempt := by
  rintro ⟨-, hbroken⟩
  exact absurd ((@Exchange.ConnectFaults.result client _ h.2).2.symm.trans hbroken.result.2) Bool.false_ne_true

/-- It is retried after a fault, of the connection or of an answered exchange. -/
theorem Tried.retried_cases (h : Tried ip client env target attempt result answered retried) :
    retried = true → result = .error httpRequestFailed ∧
      ((ConnectFaults ip env target attempt ∧ answered = false) ∨
        (BreaksOff ip client env target attempt ∧ answered = true)) := by
  intro hretried
  cases h with
  | refused e h => cases hretried
  | unbuilt pinned hpins h => cases hretried
  | handed h =>
      rcases exchange_result_cases client (env.transport attempt) with
        hfault | hbroken | hescapes | ⟨error, herror, hkept⟩ | ⟨r, hr, -⟩
      · obtain ⟨hresult, hunanswered⟩ := @Exchange.ConnectFaults.result client _ hfault
        exact ⟨hresult, Or.inl ⟨⟨h, hfault⟩, hunanswered⟩⟩
      · exact ⟨hbroken.result.1, Or.inr ⟨⟨h, hbroken⟩, hbroken.result.2⟩⟩
      · rw [hescapes.result] at hretried
        cases hretried
      · rw [herror, retries, hkept] at hretried
        cases hretried
      · rw [hr] at hretried
        cases hretried

/-- An attempt that is not retried neither failed to connect nor broke off. -/
theorem Tried.not_retried (h : Tried ip client env target attempt result answered retried) :
    retried = false → ¬ ConnectFaults ip env target attempt ∧
      ¬ BreaksOff ip client env target attempt := by
  intro hretried
  cases h with
  | refused e h =>
      exact ⟨fun ⟨⟨pinned, hpins, _⟩, _⟩ => h pinned hpins,
        fun ⟨⟨pinned, hpins, _⟩, _⟩ => h pinned hpins⟩
  | unbuilt pinned hpins h =>
      exact ⟨fun hfault => h (hfault.1.builds hpins), fun hbroken => h (hbroken.1.builds hpins)⟩
  | handed h =>
      constructor
      · rintro ⟨-, hfault⟩
        rw [(@Exchange.ConnectFaults.result client _ hfault).1] at hretried
        cases hretried
      · rintro ⟨-, hbroken⟩
        rw [hbroken.result.1] at hretried
        cases hretried

/-- A result never has more bytes than the ceiling. -/
theorem Tried.size (h : Tried ip client env target attempt result answered retried)
    {r : HttpProbeResult} (hr : result = .ok r) : r.responseBytes ≤ client.maxResponseBytes := by
  cases h with
  | refused e h => cases hr
  | unbuilt pinned hpins h => cases hr
  | handed h =>
      rcases exchange_result_cases client (env.transport attempt) with
        hfault | hbroken | hescapes | ⟨error, herror, -⟩ | ⟨r', hr', hle, -⟩
      · cases hfault.result.1.symm.trans hr
      · cases hbroken.result.1.symm.trans hr
      · cases hescapes.result.symm.trans hr
      · cases herror.symm.trans hr
      · exact Except.ok.inj (hr'.symm.trans hr) ▸ hle

end Tried

/-! ## Every run -/

/-- What a call must come to: a result or a fixed error, after a bounded number of attempts, none of
them after an answered one, with no more than the ceiling counted. -/
structure Closed (client : BoundedHttpClient)
    (outcome : Except Raised HttpProbeResult × List Attempt) : Prop where
  fixed : ∀ e, outcome.1 = .error e → ∃ error, e = .client error
  bounded : outcome.2.length ≤ client.maxRetries + 1
  answered : outcome.2.Pairwise fun earlier _ => earlier.responded = false
  size : ∀ r, outcome.1 = .ok r → r.responseBytes ≤ client.maxResponseBytes

section Runs

variable {ip : IpModule} {client : BoundedHttpClient} {env : Environment} {target : ParsedTarget}
  {attempt remaining : Nat}

/-- With retries left a failed attempt is followed by the next one. -/
theorem tracedLoop_succ :
    tracedLoop ip client env target attempt (remaining + 1) =
      if (tryOnce ip client env target attempt).2.retriable then
        ((tracedLoop ip client env target (attempt + 1) remaining).1,
          (tryOnce ip client env target attempt).2 ::
            (tracedLoop ip client env target (attempt + 1) remaining).2)
      else ((tryOnce ip client env target attempt).1,
        [(tryOnce ip client env target attempt).2]) := by
  rw [tracedLoop]

theorem tracedLoop_ne_nil :
    (tracedLoop ip client env target attempt remaining).2 ≠ [] := by
  cases remaining with
  | zero => exact List.cons_ne_nil _ _
  | succ remaining =>
      rw [tracedLoop_succ]
      split
      · exact List.cons_ne_nil _ _
      · exact List.cons_ne_nil _ _

/-- **The loop is bounded.** -/
theorem tracedLoop_length :
    (tracedLoop ip client env target attempt remaining).2.length ≤
      remaining + 1 := by
  induction remaining generalizing attempt with
  | zero => exact Nat.le_refl 1
  | succ remaining ih =>
      rw [tracedLoop_succ]
      split
      · exact Nat.succ_le_succ ih
      · exact Nat.succ_le_succ (Nat.zero_le _)

/-- **A result of the loop** counts no more than the ceiling. -/
theorem tracedLoop_size {r : HttpProbeResult}
    (h : (tracedLoop ip client env target attempt remaining).1 = .ok r) :
    r.responseBytes ≤ client.maxResponseBytes := by
  have hlast : ∀ k, (tryOnce ip client env target k).1 = .ok r →
      r.responseBytes ≤ client.maxResponseBytes := by
    intro k hk
    exact (@tried ip client env target k).size hk
  induction remaining generalizing attempt with
  | zero => exact hlast attempt h
  | succ remaining ih =>
      rw [tracedLoop_succ] at h
      split at h
      · exact ih h
      · exact hlast attempt h

/-- Where a run from one attempt on is closed: nothing escapes an attempt whose predecessors all
fault while connecting, and if a retry is left after it, it does not break off. -/
def MeetsFrom (ip : IpModule) (client : BoundedHttpClient) (env : Environment)
    (target : ParsedTarget) (attempt remaining : Nat) : Prop :=
  ∀ k, attempt ≤ k → k ≤ attempt + remaining →
    (∀ j, attempt ≤ j → j < k → ConnectFaults ip env target j) →
      ¬ Escapes ip client env target k ∧
        (k < attempt + remaining → ¬ BreaksOff ip client env target k)

theorem meetsFrom_zero : MeetsFrom ip client env target attempt 0 ↔
    ¬ Escapes ip client env target attempt := by
  constructor
  · intro h
    exact (h attempt (Nat.le_refl _) (Nat.le_refl _) (fun j _ _ => by omega)).1
  · intro h k hk hle _
    obtain rfl : k = attempt := by omega
    exact ⟨h, fun hlt => by omega⟩

/-- With retries left the property also speaks of what follows a failed connection. -/
theorem meetsFrom_succ : MeetsFrom ip client env target attempt (remaining + 1) ↔
    ¬ Escapes ip client env target attempt ∧ ¬ BreaksOff ip client env target attempt ∧
      (ConnectFaults ip env target attempt →
        MeetsFrom ip client env target (attempt + 1) remaining) := by
  constructor
  · intro h
    obtain ⟨hkept, hintact⟩ := h attempt (Nat.le_refl _) (by omega) (fun j _ _ => by omega)
    refine ⟨hkept, hintact (by omega), fun hfault k hk hle hbefore => ?_⟩
    obtain ⟨hkeptK, hintactK⟩ := h k (by omega) (by omega) fun j hj hlt => by
      by_cases heq : j = attempt
      · exact heq ▸ hfault
      · exact hbefore j (by omega) hlt
    exact ⟨hkeptK, fun hlt => hintactK (by omega)⟩
  · rintro ⟨hkept, hintact, hrest⟩ k hk hle hbefore
    by_cases heq : k = attempt
    · obtain rfl := heq
      exact ⟨hkept, fun _ => hintact⟩
    · have hfault := hbefore attempt (Nat.le_refl _) (by omega)
      obtain ⟨hkeptK, hintactK⟩ := hrest hfault k (by omega) (by omega)
        fun j hj hlt => hbefore j (by omega) hlt
      exact ⟨hkeptK, fun hlt => hintactK (by omega)⟩

/-- What is left of the requirement is decided by the attempts. -/
theorem tracedLoop_closed_iff :
    ((∀ e, (tracedLoop ip client env target attempt remaining).1 = .error e →
        ∃ error, e = .client error) ∧
      (tracedLoop ip client env target attempt remaining).2.Pairwise
        fun earlier _ => earlier.responded = false) ↔
      MeetsFrom ip client env target attempt remaining := by
  induction remaining generalizing attempt with
  | zero =>
      rw [meetsFrom_zero, ← (@tried ip client env target attempt).fixed_iff, tracedLoop]
      simp only [List.pairwise_singleton, and_true]
  | succ remaining ih =>
      have htried := @tried ip client env target attempt
      rw [meetsFrom_succ, ← htried.fixed_iff, tracedLoop_succ]
      cases hretriable : (tryOnce ip client env target attempt).2.retriable with
      | false =>
          obtain ⟨hconnects, hintact⟩ := htried.not_retried hretriable
          simp [hconnects, hintact]
      | true =>
          rw [if_pos rfl]
          obtain ⟨hresult, hcases⟩ := htried.retried_cases hretriable
          rcases hcases with ⟨hfault, hanswered⟩ | ⟨hbroken, hanswered⟩
          · -- nothing was answered: the rest of the run decides
            have hfixed : ∀ e, (tryOnce ip client env target attempt).1 = .error e →
                ∃ error, e = .client error :=
              fun e he => ⟨_, Except.error.inj (he.symm.trans hresult)⟩
            rw [← ih, List.pairwise_cons]
            exact ⟨fun h => ⟨hfixed, hfault.not_breaksOff, fun _ => ⟨h.1, h.2.2⟩⟩,
              fun h => ⟨(h.2.2 hfault).1, fun _ _ => hanswered, (h.2.2 hfault).2⟩⟩
          · -- an answered attempt was followed by another
            refine ⟨fun h => ?_, fun h => absurd hbroken h.2.1⟩
            obtain ⟨next, hnext⟩ := List.exists_mem_of_ne_nil _
              (@tracedLoop_ne_nil ip client env target (attempt + 1) remaining)
            have hfalse := List.rel_of_pairwise_cons h.2 hnext
            rw [hanswered] at hfalse
            cases hfalse

/-- Where a call is closed: it is refused before its URL is encoded, or the URL has no surrogate and
every run from its first attempt on is closed. -/
def MeetsWhen (ip : IpModule) (client : BoundedHttpClient) (env : Environment) (urllib : UrlModule)
    (url : List Text.CodePoint) (timeoutSeconds : Int) (verifyTls : Bool) : Prop :=
  verifyTls = true → 1 ≤ timeoutSeconds → timeoutSeconds ≤ 300 →
    ∃ text, encodable? url = some text ∧ ∀ target, parseTarget urllib text = .ok target →
      MeetsFrom ip client env target 1 client.maxRetries

/-- A call that is refused before its first attempt is closed. -/
theorem closed_refused (client : BoundedHttpClient) (e : HttpClientError) :
    Closed client (.error (.client e), []) where
  fixed := fun _ h => ⟨e, (Except.error.inj h).symm⟩
  bounded := Nat.zero_le _
  answered := List.Pairwise.nil
  size := nofun

/-- **A call is bounded**, whatever happens, **and closed** exactly where no surrogate stops it,
nothing escapes the attempts it reaches and none that is answered ends in a transport fault while a
retry is left. -/
theorem getText_closed_iff (ip : IpModule) (client : BoundedHttpClient) (env : Environment)
    (urllib : UrlModule) (url : List Text.CodePoint) (timeoutSeconds : Int) (verifyTls : Bool) :
    Closed client
        (client.getText ip env urllib url timeoutSeconds verifyTls) ↔
      MeetsWhen ip client env urllib url timeoutSeconds verifyTls := by
  unfold MeetsWhen BoundedHttpClient.getText
  -- A refused argument hands nothing over, and the condition asks nothing there.
  cases verifyTls with
  | false => exact ⟨fun _ h => absurd h Bool.false_ne_true, fun _ => closed_refused client _⟩
  | true =>
      by_cases htimeout : 1 ≤ timeoutSeconds ∧ timeoutSeconds ≤ 300
      · have hcheck : (1 ≤ timeoutSeconds && timeoutSeconds ≤ 300) = true := by
          simp [htimeout.1, htimeout.2]
        rw [hcheck]
        simp only [Bool.not_true, Bool.false_eq_true, if_false, htimeout.1, htimeout.2,
          true_implies]
        cases htext : encodable? url with
        -- An address that cannot be encoded escapes as a Unicode error, which is no error of the
        -- client.
        | none =>
            constructor
            · intro h
              obtain ⟨error, heq⟩ := h.fixed _ rfl
              cases heq
            · rintro ⟨text, h, -⟩
              cases h
        | some text =>
            cases htarget : parseTarget urllib text with
            | error e =>
                simp only [htarget]
                exact ⟨fun _ => ⟨text, rfl, fun _ h => by rw [htarget] at h; cases h⟩,
                  fun _ => closed_refused client e⟩
            | ok target =>
                simp only [htarget]
                constructor
                · intro h
                  refine ⟨text, rfl, fun target' htarget' => ?_⟩
                  obtain rfl := Except.ok.inj (htarget.symm.trans htarget')
                  exact tracedLoop_closed_iff.mp ⟨h.fixed, h.answered⟩
                -- The number of attempts and the size of a body are bounded in any case.
                · rintro ⟨text', htext', h⟩
                  obtain rfl := Option.some.inj htext'
                  obtain ⟨hfixed, hanswered⟩ := tracedLoop_closed_iff.mpr (h target htarget)
                  exact ⟨hfixed, tracedLoop_length, hanswered, fun r => tracedLoop_size⟩
      · have hcheck : (1 ≤ timeoutSeconds && timeoutSeconds ≤ 300) = false := by
          rw [Bool.and_eq_false_iff, decide_eq_false_iff_not, decide_eq_false_iff_not]
          exact not_and_or.mp htimeout
        rw [hcheck]
        exact ⟨fun _ _ hlow hhigh => absurd ⟨hlow, hhigh⟩ htimeout, fun _ => closed_refused client _⟩

end Runs

/-! ## A response that breaks off -/

/-- A body that breaks off after ten bytes, and a second response. -/
def brokenEnv : Environment where
  resolver _ _ := .ok ["93.184.216.34"]
  transport attempt :=
    ⟨true, .answered ⟨200, none, [10], if attempt = 1 then some .httpError else none, none⟩ none,
      true, 0, 0⟩

/-- The code points of a URL. -/
def sampleText : List Text.CodePoint := sampleUrl.toList.map Text.ofChar

/-- The first attempt is answered, and there is another. -/
theorem broken_response_retried : ¬ Closed sampleClient
    (sampleClient.getText sampleIp brokenEnv sampleUrllib sampleText 5 true) := by
  intro h
  have hresponses : ((sampleClient.getText sampleIp brokenEnv sampleUrllib sampleText
      5 true).2.map (·.responded)) = [true, true] := by decide +kernel
  have hfalse : ([true, true] : List Bool).Pairwise fun earlier _ => earlier = false := by
    rw [← hresponses, List.pairwise_map]
    exact h.answered
  cases List.rel_of_pairwise_cons hfalse List.mem_cons_self

end Milhouse.Http
