import Sone.Jobs.Replies

/-!
# The address a reply goes to

`replyAddress` (`mail/replyToken.ts`) puts a token into the address of a mailbox, behind a plus
sign. `tokenFromAddress` finds it there whatever stands before the plus sign
(`tokenFromAddress_append`).

A token has three ids in it, which are whatever texts the comments of a document have for them.
`readReplyToken_address_iff`: what was put into the address comes back exactly where none of them
has the separator of the token in it.
-/

namespace Sone.Replies

open List Signing

def replyAddress (mailbox token : List Char) : List Char :=
  match mailbox.idxOf? '@' with
  | some (before + 1) =>
    mailbox.take (before + 1) ++ '+' :: (token ++ '@' :: mailbox.drop (before + 2))
  | _ => mailbox

variable {before domain token : List Char}

theorem replyAddress_eq (hbefore : before ≠ []) (hat : '@' ∉ before) (domain token : List Char) :
    replyAddress (before ++ '@' :: domain) token = before ++ '+' :: (token ++ '@' :: domain) := by
  have hidx : (before ++ '@' :: domain).idxOf? '@' = some before.length := by
    rw [List.idxOf?, findIdx?_append, findIdx?_eq_none_iff.mpr fun c hc => by
      simpa using ne_of_mem_of_not_mem hc hat]
    simp [findIdx?_cons]
  obtain ⟨n, hn⟩ := Nat.exists_eq_succ_of_ne_zero (length_pos_of_ne_nil hbefore).ne'
  have hdrop : (before ++ '@' :: domain).drop (n + 2) = domain := by
    rw [show n + 2 = before.length + 1 by omega, drop_append]
    simp
  rw [replyAddress, hidx, hn]
  simp only [hdrop, take_append_of_le_length hn.ge, take_of_length_le hn.le]

theorem head_dropWhile_ne (hat : '@' ∉ before) (rest : List Char) :
    ((before ++ '+' :: rest).dropWhile isTokenChar).head? ≠ some '@' := by
  induction before with
  | nil =>
    have hplus : isTokenChar '+' = false := rfl
    simp [hplus]
  | cons c before ih =>
    rw [mem_cons, not_or] at hat
    rw [cons_append, dropWhile_cons]
    split_ifs
    · exact ih hat.2
    · simpa using Ne.symm hat.1

theorem tokenFromAddress_append (hat : '@' ∉ before) (hne : token ≠ [])
    (htoken : ∀ c ∈ token, isTokenChar c = true) :
    tokenFromAddress (before ++ '+' :: (token ++ '@' :: domain)) = some token := by
  have hstop : isTokenChar '@' = false := rfl
  induction before with
  | nil =>
    rw [nil_append, tokenFromAddress, takeWhile_append_of_pos htoken,
      dropWhile_append_of_pos htoken, takeWhile_cons, dropWhile_cons, hstop]
    simp [hne]
  | cons c before ih =>
    rw [mem_cons, not_or] at hat
    rw [cons_append, tokenFromAddress, if_neg fun h => head_dropWhile_ne hat.2 _ h.2.2, ih hat.2]

theorem isTokenChar_encode (bytes : List UInt8) :
    ∀ c ∈ Base64.encode bytes, isTokenChar c = true := by
  have hall : ∀ n < 64, isTokenChar (Base64.letter n) = true := by
    decide +kernel
  intro c hc
  obtain ⟨n, hn, rfl⟩ := List.mem_map.mp hc
  exact hall n (Base64.lt_of_mem_sextets bytes n hn)

theorem isTokenChar_withMac (env : Signing) (payload : List Char) :
    ∀ c ∈ env.withMac payload, isTokenChar c = true := by
  intro c hc
  rcases mem_append.mp hc with hc | hc
  · exact isTokenChar_encode _ c hc
  · rcases mem_cons.mp hc with rfl | hc
    · rfl
    · exact isTokenChar_encode _ c (mem_of_mem_take hc)

theorem readReplyToken_address (env : Signing) (target : ReplyTarget) (issued now : Instant)
    (hbefore : before ≠ []) (hat : '@' ∉ before) :
    (tokenFromAddress (replyAddress (before ++ '@' :: domain) (env.replyToken target issued))).map
        (env.readReplyToken · now) = some (.ok target) ↔
      (PlainIds target ∧ '~' ∉ target.userId.toList) ∧
        ¬ secondsAfter issued replySeconds * 1000 ≤ now.ms := by
  have hne : env.replyToken target issued ≠ [] := append_ne_nil_of_right_ne_nil _ (cons_ne_nil _ _)
  have hpayload : replyPayload target (secondsAfter issued replySeconds) ≠ [] := by
    simp [replyPayload]
  rw [replyAddress_eq hbefore hat, tokenFromAddress_append hat hne (isTokenChar_withMac env _),
    Option.map_some, Option.some.injEq, replyToken,
    readReplyToken_of_reply (carries_withMac hpayload)]
  exact and_iff_right rfl

/-- **When an answer finds its thread**: until the token ends, exactly where no id has the
separator in it. The mailbox is any with something before its first at sign. -/
theorem readReplyToken_address_iff (env : Signing) (target : ReplyTarget) {issued now : Instant}
    {before domain : List Char} (hbefore : before ≠ []) (hat : '@' ∉ before)
    (hnow : now.ms < secondsAfter issued replySeconds * 1000) :
    (tokenFromAddress (replyAddress (before ++ '@' :: domain) (env.replyToken target issued))).map
        (env.readReplyToken · now) = some (.ok target) ↔
      '~' ∉ target.threadId.toList ∧ '~' ∉ target.messageId.toList ∧
        '~' ∉ target.userId.toList := by
  rw [readReplyToken_address env target issued now hbefore hat, and_iff_left hnow.not_ge, PlainIds,
    and_assoc]

theorem readReplyToken_address_inbox :
    (tokenFromAddress (replyAddress "inbox@example.org".toList
      (sample.replyToken namedThread newYear))).map (sample.readReplyToken · newYear) =
        some (.ok namedThread) :=
  (@readReplyToken_address_iff sample namedThread newYear newYear "inbox".toList
    "example.org".toList (by decide) (by decide) (by decide)).mpr (by decide)

/-- **An id with the separator in it** makes the answer one that is not read. -/
theorem not_readReplyToken_address : ¬∀ (env : Signing) (target : ReplyTarget)
    (issued now : Instant) (before domain : List Char), before ≠ [] → '@' ∉ before →
      now.ms < secondsAfter issued replySeconds * 1000 →
        (tokenFromAddress (replyAddress (before ++ '@' :: domain)
          (env.replyToken target issued))).map (env.readReplyToken · now) = some (.ok target) := by
  intro h
  have hread := h sample { namedThread with messageId := "a~b" } newYear newYear "inbox".toList
    "example.org".toList (by decide) (by decide) (by decide)
  rw [readReplyToken_address _ _ _ _ (by decide) (by decide)] at hread
  exact hread.1.1.2 (by decide)

end Sone.Replies
