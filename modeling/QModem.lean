import QModem.Lib.CMemory
import QModem.Lib.Connection
import QModem.Lib.Digits
import QModem.Lib.Latch
import QModem.Lib.Lines
import QModem.Lib.Md5
import QModem.Lib.Nft
import QModem.Lib.PolicyRouting
import QModem.Lib.Ring
import QModem.Lib.Run
import QModem.Lib.SecretStream
import QModem.Lib.Spans
import QModem.Lib.Table
import QModem.Lib.Transaction
import QModem.Sms.Gsm7
import QModem.Sms.Pdu
import QModem.Sms.Deliver
import QModem.Sms.Gsm7Receive
import QModem.Sms.Submit
import QModem.Sms.Utf
import QModem.Sms.Ucs2RoundTrip
import QModem.Sms.Numbers
import QModem.Sms.Parts
import QModem.Sms.SenderName
import QModem.Sms.DecodeMemory
import QModem.Sms.DecodeBounds
import QModem.Sms.PhoneOctets
import QModem.Sms.Gsm7Submit
import QModem.Sms.SubmitReadback
import QModem.Smsd.Schema
import QModem.Smsd.Receive
import QModem.Smsd.Maintain
import QModem.Smsd.Forward
import QModem.Smsd.System
import QModem.Smsd.Effects
import QModem.Smsd.Invariants
import QModem.Smsd.Validity
import QModem.Smsd.NoLoss
import QModem.Smsd.Isolation
import QModem.Smsd.Reassembly
import QModem.Smsd.Removal
import QModem.Smsd.Deliveries
import QModem.Smsd.Forwarding
import QModem.Smsd.Handover
import QModem.Smsd.ManagedSend
import QModem.Smsd.Statements
import QModem.Smsd.Timestamps
import QModem.Smsd.ReplyContact
import QModem.Smsd.Sync
import QModem.Sip.Md5
import QModem.Sip.Credentials
import QModem.Sip.Gateway
import QModem.Sip.Messages
import QModem.Scan.Scheduler
import QModem.Scan.Orderly
import QModem.Scan.LastRequest
import QModem.Scan.Metrics
import QModem.Scan.ChildOutput
import QModem.At.Leases
import QModem.At.LineQueue
import QModem.At.Ports
import QModem.At.Publishing
import QModem.At.LineIdentity
import QModem.At.LeaseEnforcement
import QModem.At.Reader
import QModem.At.Response
import QModem.Voip.CallState
import QModem.Voip.Position
import QModem.Voip.Acts
import QModem.Voip.EventGap
import QModem.Voip.Daemon
import QModem.Voip.HangUp
import QModem.Voip.History
import QModem.Voip.Reconcile
import QModem.Voip.Recovery
import QModem.Voip.Polling
import QModem.Voip.Revision
import QModem.Voip.Correlation
import QModem.Voip.PortSwitch
import QModem.Voip.CallerId
import QModem.Sip.Consumer
import QModem.Sip.Isolation
import QModem.Sip.Replay
import QModem.Sip.Guessing
import QModem.Sip.Registration
import QModem.Sip.CallRecord
import QModem.Seal.Payload
import QModem.Uplink.Health
import QModem.Uplink.Config
import QModem.Uplink.Reload
import QModem.Uplink.Accepted
import QModem.Uplink.Policy
import QModem.Uplink.Marking
import QModem.Uplink.Selection
import QModem.Uplink.Pinning
import QModem.Uplink.Ids
import QModem.Uplink.FirewallLease
import QModem.Voip.BrowserTokens
import QModem.Voip.TokenText
import QModem.Voip.Announcements
import QModem.Voip.Media
import QModem.Voip.Ownership
import QModem.Voip.TokenUse
import QModem.Voip.SingleAnswer
import QModem.Voip.RtpParsing
