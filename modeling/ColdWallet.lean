import ColdWallet.Bytes
import ColdWallet.Hash.Sha256
import ColdWallet.Hash.Hmac
import ColdWallet.Hash.NonceStream
import ColdWallet.Curve.Residue
import ColdWallet.Curve.Point
import ColdWallet.Curve.Recoding
import ColdWallet.Curve.CompactPoint
import ColdWallet.Curve.Jacobian
import ColdWallet.Curve.MultiMul
import ColdWallet.Curve.Generators
import ColdWallet.Transcript
import ColdWallet.Wire.Codec
import ColdWallet.Wire.Coin
import ColdWallet.Wire.Status
import ColdWallet.Wire.Keys
import ColdWallet.Wire.Kernel
import ColdWallet.Wire.RangeProof
import ColdWallet.Wire.Shielded
import ColdWallet.Wire.Opcode
import ColdWallet.Keys.Node
import ColdWallet.Keys.Address
import ColdWallet.Keys.Coin
import ColdWallet.Signature
import ColdWallet.Kernel
import ColdWallet.RangeProof.Commitments
import ColdWallet.RangeProof.Folding
import ColdWallet.RangeProof.Output
import ColdWallet.RangeProof.Recovery
import ColdWallet.Shielded.Viewer
import ColdWallet.Shielded.Voucher
import ColdWallet.Shielded.Output
import ColdWallet.Shielded.Spend
import ColdWallet.Device.Error
import ColdWallet.Device.Ledger
import ColdWallet.Device.Request
import ColdWallet.Device.Turn
import ColdWallet.Device.Export
import ColdWallet.Device.Transfer
import ColdWallet.Device.Invoke
import ColdWallet.Proofs.Curve.Primes
import ColdWallet.Proofs.Curve.Fields
import ColdWallet.Proofs.Curve.Group
import ColdWallet.Proofs.Curve.Jacobian
import ColdWallet.Proofs.Curve.Order
import ColdWallet.Proofs.Curve.Recoding
import ColdWallet.Proofs.Curve.MultiMul
import ColdWallet.Proofs.Bytes
import ColdWallet.Proofs.Curve.Generators
import ColdWallet.Proofs.Wire.Layout
import ColdWallet.Proofs.Wire.Message
import ColdWallet.Proofs.Wire.Payload
import ColdWallet.Proofs.Wire.RoundTrip
import ColdWallet.Proofs.Wire.Coins
import ColdWallet.Proofs.Curve.CompactPoint
import ColdWallet.Proofs.Signature
import ColdWallet.Proofs.Cosigning
import ColdWallet.Proofs.Numbers
import ColdWallet.Proofs.Transcript
import ColdWallet.Proofs.Kernel
import ColdWallet.Proofs.Keys.Coin
import ColdWallet.Proofs.Keys.Node
import ColdWallet.Proofs.Device.Effect
import ColdWallet.Proofs.Device.Invoke
import ColdWallet.Proofs.Device.Reply
import ColdWallet.Proofs.Device.Failures
import ColdWallet.Proofs.Device.Grammar
import ColdWallet.Proofs.Device.Run
import ColdWallet.Proofs.Device.Ledger
import ColdWallet.Proofs.Device.Frame
import ColdWallet.Proofs.Device.Slots
import ColdWallet.Proofs.Device.Commitments
import ColdWallet.Proofs.Device.Net
import ColdWallet.Proofs.Device.OwnKernel
import ColdWallet.Proofs.Device.Exchange
import ColdWallet.Proofs.Device.Consent
import ColdWallet.Proofs.Device.Pending
import ColdWallet.Proofs.Device.Nonces
import ColdWallet.Proofs.Device.Vouchers
import ColdWallet.Proofs.Device.Prompts
import ColdWallet.Proofs.Device.Spends
import ColdWallet.Proofs.Device.Images
import ColdWallet.Proofs.RangeProof.Commitments
import ColdWallet.Proofs.RangeProof.Vectors
import ColdWallet.Proofs.RangeProof.Sweeps
import ColdWallet.Proofs.RangeProof.Recovery
import ColdWallet.Proofs.RangeProof.Output
import ColdWallet.Proofs.Shielded.Output
import ColdWallet.Proofs.Shielded.Spend
import ColdWallet.Proofs.Shielded.Voucher
import ColdWallet.Proofs.Shielded.Note
import ColdWallet.Proofs.RangeProof.TauX
import ColdWallet.Proofs.RangeProof.Folding
import ColdWallet.Proofs.Curve.Cursor
import ColdWallet.Proofs.Device.Peers
import ColdWallet.Proofs.Numbers
