import Postio.Store.MessageSet

set_option autoImplicit false

namespace Postio

namespace MailStore

def Owns (store : MailStore) (account : AccountId) (mailbox : MailboxId) : Prop :=
  (store.mailbox mailbox).map Mailbox.accountId = some account

end MailStore

end Postio
