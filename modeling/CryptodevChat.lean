import CryptodevChat.Lib.Bytes
import CryptodevChat.Lib.Buffer
import CryptodevChat.Lib.Memory
import CryptodevChat.Lib.Agreement
import CryptodevChat.Lib.Run
import CryptodevChat.Lib.Potential
import CryptodevChat.Lib.Semaphore
import CryptodevChat.Lib.Channel
import CryptodevChat.Lib.Inverse
import CryptodevChat.Lib.Ledger
import CryptodevChat.Lib.Grammar
import CryptodevChat.Lib.Coupling
import CryptodevChat.Lib.Insist
import CryptodevChat.Lib.Client
import CryptodevChat.Lib.Objects
import CryptodevChat.Chat.Common
import CryptodevChat.Chat.Transfer
import CryptodevChat.Chat.Cipher
import CryptodevChat.Chat.Forward
import CryptodevChat.Chat.RoundTrip
import CryptodevChat.Chat.Broadcast
import CryptodevChat.Chat.Bounds
import CryptodevChat.Chat.OneToOne
import CryptodevChat.Chat.Capacity
import CryptodevChat.Chat.Frames
import CryptodevChat.Chat.EventLoop
import CryptodevChat.Chat.Insist
import CryptodevChat.Chat.Dialogue
import CryptodevChat.Chat.Residue
import CryptodevChat.Chat.Rounds
import CryptodevChat.Chat.Listening
import CryptodevChat.Chat.Effort
import CryptodevChat.Chat.Hearing
import CryptodevChat.Chat.Impasse
import CryptodevChat.Chat.Parting
import CryptodevChat.Virtio.Cryptodev
import CryptodevChat.Virtio.Backend
import CryptodevChat.Virtio.Element
import CryptodevChat.Virtio.Driver
import CryptodevChat.Virtio.Exec
import CryptodevChat.Virtio.Effects
import CryptodevChat.Virtio.Request
import CryptodevChat.Virtio.Pointers
import CryptodevChat.Virtio.Success
import CryptodevChat.Virtio.Native
import CryptodevChat.Virtio.Mapping
import CryptodevChat.Virtio.Tasks
import CryptodevChat.Virtio.Discipline
import CryptodevChat.Virtio.Serial
import CryptodevChat.Virtio.Serialised
import CryptodevChat.Virtio.Authority
import CryptodevChat.Virtio.Observe
import CryptodevChat.Virtio.Opening
import CryptodevChat.Virtio.Answers
import CryptodevChat.Virtio.Status
import CryptodevChat.Virtio.Races
import CryptodevChat.Virtio.Faults
import CryptodevChat.Virtio.Course
import CryptodevChat.Virtio.Entries
import CryptodevChat.Virtio.Shortage
import CryptodevChat.Virtio.Finish
import CryptodevChat.Virtio.Frame
import CryptodevChat.Virtio.Blocks
import CryptodevChat.Virtio.Refers
import CryptodevChat.Virtio.Lifetime
import CryptodevChat.Virtio.Minors
import CryptodevChat.Virtio.Ledger
import CryptodevChat.Virtio.Accounts
import CryptodevChat.Virtio.Vfs
import CryptodevChat.Virtio.Accounting
import CryptodevChat.Virtio.CryptoModule
import CryptodevChat.Virtio.Loading
import CryptodevChat.Virtio.Unloading
import CryptodevChat.Virtio.Served
import CryptodevChat.Virtio.Platform
import CryptodevChat.Server.Machine
import CryptodevChat.Server.Moves
import CryptodevChat.Server.Table
import CryptodevChat.Server.Descriptors
import CryptodevChat.Server.Slots
import CryptodevChat.Server.Locks
import CryptodevChat.Server.Alive
import CryptodevChat.Server.Stream
import CryptodevChat.Server.Delivery
import CryptodevChat.Server.Contents
import CryptodevChat.Server.Plain
import CryptodevChat.Server.Progress
import CryptodevChat.Server.Identity
import CryptodevChat.Server.Order
import CryptodevChat.Server.Arrivals
import CryptodevChat.Server.Transcript
import CryptodevChat.Server.Work
import CryptodevChat.Server.Leaving
import CryptodevChat.Server.Attending
import CryptodevChat.Server.Survival
import CryptodevChat.Server.Rest
import CryptodevChat.Server.Sealed
import CryptodevChat.Server.Encrypted
import CryptodevChat.User.Sharing
import CryptodevChat.User.Accounts
import CryptodevChat.User.Contract
import CryptodevChat.User.Desk
import CryptodevChat.User.Variables
import CryptodevChat.User.Fields
import CryptodevChat.User.Crypt
import CryptodevChat.User.Interleaving
import CryptodevChat.User.SelfTest
