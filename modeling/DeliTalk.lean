import DeliTalk.Main
import DeliTalk.Personality.Store
import DeliTalk.Service
import DeliTalk.Session.Listening
import DeliTalk.Session.Visit
import DeliTalk.Proofs.Ending
import DeliTalk.Proofs.Hearing
import DeliTalk.Proofs.Acceptance
import DeliTalk.Proofs.Reals
import DeliTalk.Proofs.RoundTrip
import DeliTalk.Proofs.Agreement
import DeliTalk.Proofs.Delivery
import DeliTalk.Proofs.Erasure
import DeliTalk.Proofs.Aptness
import DeliTalk.Proofs.Pantry
import DeliTalk.Proofs.Replies
import DeliTalk.Proofs.Standing
import DeliTalk.Proofs.Caution
import DeliTalk.Proofs.Reckoning
import DeliTalk.Proofs.Obedience
import DeliTalk.Proofs.Framing
import DeliTalk.Proofs.Attention
import DeliTalk.Proofs.Listening
import DeliTalk.Proofs.Bracketing
import DeliTalk.Proofs.Answering
import DeliTalk.Proofs.Imagination
import DeliTalk.Proofs.Reversal
import DeliTalk.Proofs.Heeding
import DeliTalk.Proofs.Grasp
import DeliTalk.Proofs.Echo
import DeliTalk.Proofs.Undoing
import DeliTalk.Proofs.Footprint
import DeliTalk.Proofs.Motives
import DeliTalk.Proofs.Placement
import DeliTalk.Proofs.Vocabulary
import DeliTalk.Proofs.Places
import DeliTalk.Proofs.Exclusion
import DeliTalk.Proofs.Fillings
import DeliTalk.Proofs.Utterance
import DeliTalk.Proofs.Clouds
import DeliTalk.Proofs.Escapes
import DeliTalk.Proofs.Prepared
import DeliTalk.Proofs.Confirmations
import DeliTalk.Proofs.Matching
import DeliTalk.Proofs.Orthography
import DeliTalk.Proofs.Depths
import DeliTalk.Proofs.Keeping
import DeliTalk.Proofs.Practice
