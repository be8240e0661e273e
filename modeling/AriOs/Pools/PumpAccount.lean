import AriOs.Arith.LittleEndian
import AriOs.Pools.PumpCurve

/-!
# Curve accounts and what a sale promises

The account of a bonding curve is a buffer that has grown over time: a discriminator, five
reserves and a flag, later a creator and more. The decoder takes the reserves as they stand, so
the real reserve of a decoded curve bears no relation to its virtual ones. A sale is priced from
the virtual reserves alone and never compared with the real one, which pays for it.
-/

namespace AriOs.Pools.Pumpfun

open AriOs.Js AriOs.Arith

/-! ### Decoding -/

/-- The 32 bytes of a key. -/
abbrev PublicKey := List UInt8

/-- The digits of a key's text. -/
def BASE58_ALPHABET : List Char :=
  "123456789ABCDEFGHJKLMNPQRSTUVWXYZabcdefghijkmnopqrstuvwxyz".toList

/-- The text of a key: a one for each leading zero, then the digits of the rest. -/
def toBase58 (key : PublicKey) : String :=
  let digits := Nat.digits 58 (ofBytes key.reverse)
  String.ofList (List.replicate (key.takeWhile (· = 0)).length '1' ++
    digits.reverse.map fun d => BASE58_ALPHABET.getD d '1')

structure BondingCurveAccount extends CurveReserves where
  /-- `none` on curves from before the creator fee -/
  creator : Option PublicKey
  isMayhemMode : Option Bool
  isCashbackCoin : Option Bool
  /-- all zeroes for a curve that is quoted in SOL -/
  quoteMint : Option PublicKey
  rawLength : Nat
  deriving DecidableEq

def BONDING_CURVE_DISCRIMINATOR : List UInt8 := [23, 183, 248, 55, 96, 216, 172, 96]

def discriminatorMatches (buf expected : List UInt8) : Bool := expected.isPrefixOf buf

/-- A `u64` of the buffer; every caller has checked the length. -/
def readBigUInt64LE (buf : List UInt8) (offset : Nat) : Int := readAt 8 offset buf

/-- A flag of the buffer. -/
def readFlag (buf : List UInt8) (offset : Nat) : Bool := readAt 1 offset buf ≠ 0

/-- Decode the account of a curve. What lies behind `complete` is read if the buffer is long
enough for it. -/
def decodeBondingCurve (buf : List UInt8) : Except PoolError BondingCurveAccount := do
  throwIf (¬ discriminatorMatches buf BONDING_CURVE_DISCRIMINATOR)
    (.other "account is not a pump.fun BondingCurve (discriminator mismatch)")
  throwIf (buf.length < 49) (.other s!"BondingCurve too short: {buf.length} bytes")
  return {
    virtualTokenReserves := readBigUInt64LE buf 8
    virtualSolReserves := readBigUInt64LE buf 16
    realTokenReserves := readBigUInt64LE buf 24
    realSolReserves := readBigUInt64LE buf 32
    tokenTotalSupply := readBigUInt64LE buf 40
    complete := readFlag buf 48
    creator := if buf.length ≥ 81 then some ((buf.drop 49).take 32) else none
    isMayhemMode := if buf.length ≥ 82 then some (readFlag buf 81) else none
    isCashbackCoin := if buf.length ≥ 83 then some (readFlag buf 82) else none
    quoteMint := if buf.length ≥ 115 then some ((buf.drop 83).take 32) else none
    rawLength := buf.length }

/-- The account of a curve as it was first laid out, with these reserves. -/
def reserveData (virtualToken virtualSol realToken realSol supply : Nat) (complete : Bool) :
    List UInt8 :=
  BONDING_CURVE_DISCRIMINATOR ++ (toBytes 8 virtualToken ++ (toBytes 8 virtualSol ++
    (toBytes 8 realToken ++ (toBytes 8 realSol ++ (toBytes 8 supply ++
      toBytes 1 (if complete then 1 else 0))))))

section Decode

variable {virtualToken virtualSol realToken realSol supply : Nat} {complete : Bool}

theorem length_reserveData :
    (reserveData virtualToken virtualSol realToken realSol supply complete).length = 49 := by
  simp [reserveData, BONDING_CURVE_DISCRIMINATOR]

/-- Every field stands behind a head of known length. -/
theorem readAt_reserveData (hvt : virtualToken < 256 ^ 8) (hvs : virtualSol < 256 ^ 8)
    (hrt : realToken < 256 ^ 8) (hrs : realSol < 256 ^ 8) (hsupply : supply < 256 ^ 8)
    {buf : List UInt8}
    (hbuf : buf = reserveData virtualToken virtualSol realToken realSol supply complete) :
    readAt 8 8 buf = virtualToken ∧ readAt 8 16 buf = virtualSol ∧ readAt 8 24 buf = realToken ∧
      readAt 8 32 buf = realSol ∧ readAt 8 40 buf = supply ∧
      readAt 1 48 buf = if complete then 1 else 0 := by
  rw [hbuf, reserveData]
  -- of the discriminator only its length matters
  generalize hd : BONDING_CURVE_DISCRIMINATOR = d
  have hlength : d.length = 8 := by rw [← hd]; rfl
  refine ⟨readAt_append hlength hvt, ?_, ?_, ?_, ?_, ?_⟩
  · simpa only [List.append_assoc] using
      @readAt_append 8 16 _ (d ++ toBytes 8 virtualToken) _ (by simp [hlength]) hvs
  · simpa only [List.append_assoc] using
      @readAt_append 8 24 _ (d ++ (toBytes 8 virtualToken ++ toBytes 8 virtualSol)) _
        (by simp [hlength]) hrt
  · simpa only [List.append_assoc] using
      @readAt_append 8 32 _ (d ++ (toBytes 8 virtualToken ++ (toBytes 8 virtualSol ++
        toBytes 8 realToken))) _ (by simp [hlength]) hrs
  · simpa only [List.append_assoc] using
      @readAt_append 8 40 _ (d ++ (toBytes 8 virtualToken ++ (toBytes 8 virtualSol ++
        (toBytes 8 realToken ++ toBytes 8 realSol)))) _ (by simp [hlength]) hsupply
  · have hflag : (if complete then 1 else 0) < 256 ^ 1 := by split <;> decide
    simpa only [List.append_assoc, List.append_nil] using
      @readAt_append 1 48 _ (d ++ (toBytes 8 virtualToken ++ (toBytes 8 virtualSol ++
        (toBytes 8 realToken ++ (toBytes 8 realSol ++ toBytes 8 supply))))) [] (by simp [hlength])
        hflag

/-- The decoder asks nothing of the reserves: whatever fits into the fields is accepted. -/
theorem decodeBondingCurve_reserveData (hvt : virtualToken < 256 ^ 8) (hvs : virtualSol < 256 ^ 8)
    (hrt : realToken < 256 ^ 8) (hrs : realSol < 256 ^ 8) (hsupply : supply < 256 ^ 8) :
    decodeBondingCurve (reserveData virtualToken virtualSol realToken realSol supply complete) =
      .ok ⟨⟨virtualSol, virtualToken, realSol, realToken, supply, complete⟩, none, none, none, none,
        49⟩ := by
  generalize hbuf : reserveData virtualToken virtualSol realToken realSol supply complete = buf
  have hlength : buf.length = 49 := by rw [← hbuf, length_reserveData]
  have hmatch : discriminatorMatches buf BONDING_CURVE_DISCRIMINATOR = true := by
    rw [← hbuf, discriminatorMatches, List.isPrefixOf_iff_prefix]
    exact List.prefix_append _ _
  obtain ⟨h8, h16, h24, h32, h40, h48⟩ := readAt_reserveData hvt hvs hrt hrs hsupply hbuf.symm
  have hflag : readFlag buf 48 = complete := by
    cases complete <;> simp [readFlag, h48]
  simp [decodeBondingCurve, throwIf, hmatch, hlength, hflag, readBigUInt64LE, h8, h16,
    h24, h32, h40,
    bind, Except.bind, pure, Except.pure]

theorem decodeBondingCurve_reserveData_full :
    decodeBondingCurve (reserveData (256 ^ 8 - 1) 1 0 0 7 true) =
      .ok ⟨⟨1, 256 ^ 8 - 1, 0, 0, 7, true⟩, none, none, none, none, 49⟩ :=
  decodeBondingCurve_reserveData (by decide) (by decide) (by decide) (by decide) (by decide)

end Decode

/-! ### Sales -/

/-- **What a sale promises.** A quoted sale can be paid out of the real reserve exactly if its
amount is small enough for it. -/
theorem sell_payable_iff {r : CurveReserves} {tokenAmount feeBps : Int} {slippageBps : JsNumber}
    {quote : SellQuote} (hquote : quoteSell r tokenAmount feeBps slippageBps = .ok quote) :
    quote.grossSolLamports ≤ r.realSolReserves ↔
      tokenAmount * (r.virtualSolReserves - (r.realSolReserves + 1)) <
        (r.realSolReserves + 1) * r.virtualTokenReserves := by
  simp only [quoteSell, bind_eq_ok, throwIf_eq_ok, exists_and_left, exists_const, not_le] at hquote
  obtain ⟨hpos, -, -, -, -, gross, hgross, _, -, heq⟩ := hquote
  obtain ⟨⟨-, htoken⟩, rfl⟩ := solForTokens_eq_ok_iff.mp hgross
  obtain rfl := Except.ok.inj heq
  rw [if_neg (not_le.mpr hpos)]
  exact proceeds_le_iff (by omega)

/-- The account of the young curve. -/
def youngAccount : BondingCurveAccount := ⟨youngCurve, none, none, none, none, 49⟩

theorem sell_payable_iff_young :
    ∃ quote, quoteSell youngCurve 60000000000000 95 (.ofInt 100) = .ok quote ∧
      quote.grossSolLamports ≤ youngCurve.realSolReserves := by
  obtain ⟨quote, hquote⟩ : ∃ quote, quoteSell youngCurve 60000000000000 95 (.ofInt 100) =
      .ok quote :=
    ⟨⟨60000000000000, 1801231310, 17111697, 1784119613, 1766278416, 95⟩, by decide +kernel⟩
  exact ⟨quote, hquote, (sell_payable_iff hquote).mpr (by decide)⟩

/-- Two hundred million tokens are promised more than the two SOL that the curve holds. -/
theorem sell_beyond_reserves :
    decodeBondingCurve (reserveData 1005937500000000 32000000000 726037500000000 2000000000
      1000000000000000 false) = .ok youngAccount ∧
    ∃ quote, quoteSell youngAccount.toCurveReserves 200000000000000 95 (.ofInt 100) = .ok quote ∧
      youngAccount.realSolReserves < quote.grossSolLamports := by
  refine ⟨by decide, ⟨200000000000000, 5307074371, 50417206, 5256657165,
    5204090593, 95⟩, by decide +kernel, by decide⟩

end AriOs.Pools.Pumpfun
